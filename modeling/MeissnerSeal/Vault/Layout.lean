/-
How the bytes of an accepted file are accounted for.

# The layout

A file the program writes is tiled by its prefix, header, root-key frame,
record table and frames, and `body_len` is the length of the last three
(`Image.tiled`).

# What an `unlock` checks of it

The table fixes where each frame lies and the parser rejects a frame that
runs over the table or the end of the file; nothing asks that the frames
reach the end. Of the files that open, those are tiled whose `body_len` is
the one written with their table and whose header has the written length,
or that list no frame (`VaultIdentity.Accepts.tiled_iff`). Bytes behind
the last frame go unnoticed (`Stored.trailing_unbound`).
-/
import MeissnerSeal.Lib.Tiling
import MeissnerSeal.Vault.Authentic
import MeissnerSeal.Vault.History

namespace MeissnerSeal

open ByteCodec ExceptRules Tiling

variable {β : Type} {platform : Platform} {v : VaultIdentity platform} {path : Path}

/-- Prefix, header, root-key frame and record table. -/
def VaultHead.sections (head : VaultHead) : List (Nat × Nat) :=
  [(0, headerMinLen), (headerMinLen, head.wrkOffset), (head.wrkOffset, head.tableOffset),
    (head.tableOffset, head.tableOffset + head.tableLen.toNat)]

/-- The bytes of a file are those of its head, its table and the frames
the table lists, and `body_len` says so. -/
structure Tiled (bytes : Bytes) (head : VaultHead) (entries : List RecordTableEntry) : Prop where
  tiles : Tiles (head.sections ++ entries.map RecordTableEntry.extent) bytes.length
  bodyLen : ∃ bodyLen : UInt64, SegAt bytes prefixBodyLenOffset (leU64 bodyLen)
    ∧ bodyLen.toNat = head.wrkBytes.length + head.tableLen.toNat
        + (entries.map fun entry => entry.frameLen.toNat).sum

theorem VaultHead.abut_sections (head : VaultHead) :
    Abut 0 head.sections (head.tableOffset + head.tableLen.toNat) := by
  refine ⟨rfl, Nat.zero_le _, rfl, ?_, rfl, ?_, rfl, ?_, rfl⟩
  · exact Nat.le_add_right ..
  · exact Nat.le_add_right ..
  · exact Nat.le_add_right ..

theorem FramesFrom.abut {start stop : Nat} {entries : List RecordTableEntry}
    (h : FramesFrom start entries stop) :
    Abut start (entries.map RecordTableEntry.extent) stop := by
  induction entries generalizing start with
  | nil => exact h
  | cons entry entries ih =>
      obtain ⟨rfl, hrest⟩ := h
      exact ⟨rfl, Nat.le_add_right .., ih hrest⟩

/-- The frames of a run of entries take up what lies between its ends. -/
theorem FramesFrom.sum_eq {start stop : Nat} {entries : List RecordTableEntry}
    (h : FramesFrom start entries stop) :
    start + (entries.map fun entry => entry.frameLen.toNat).sum = stop := by
  have hsum := h.abut.sum_eq
  simpa only [List.map_map, Function.comp_def, RecordTableEntry.extent, Nat.add_sub_cancel_left]
    using hsum

/-- `body_len` is what the file has behind its header. -/
theorem HeadOf.exists_bodyLen {bytes : Bytes} {head : VaultHead} (h : HeadOf bytes head) :
    ∃ bodyLen : UInt64, SegAt bytes prefixBodyLenOffset (leU64 bodyLen)
      ∧ bytes.length = head.wrkOffset + bodyLen.toNat := by
  obtain ⟨headerLen, tableLen, bodyLen, prefixBytes, tlvs, fields, hleading, hseg, -, hlen, -⟩ :=
    (parseHeader_eq_ok (length_le_of_parseHeader h.header_parsed)).mp h.header_parsed
  rw [segAt_append] at hseg
  obtain ⟨-, -, -, h10, -, h18, -⟩ := segAt_front [] hleading
  rw [List.append_nil] at h10 h18
  have hheaderLen := leU32_inj ((hseg.1.trans h10).unique h.headerLen_at rfl)
  refine ⟨bodyLen, hseg.1.trans h18, ?_⟩
  rw [hlen, hheaderLen, VaultHead.wrkOffset]

/-- A head, its table and frames that follow it up to the end tile the file. -/
theorem HeadOf.tiled {bytes : Bytes} {head : VaultHead} {entries : List RecordTableEntry}
    (h : HeadOf bytes head)
    (hframes : FramesFrom (head.tableOffset + head.tableLen.toNat) entries bytes.length) :
    Tiled bytes head entries := by
  refine ⟨(head.abut_sections.append hframes.abut).tiles, ?_⟩
  obtain ⟨bodyLen, h18, hlen⟩ := h.exists_bodyLen
  have hsum := hframes.sum_eq
  refine ⟨bodyLen, h18, ?_⟩
  rw [VaultHead.tableOffset] at hsum
  omega

/-- The files of a vault are tiled. -/
theorem Image.tiled {records : List PendingRecord} {bytes : Bytes} (h : Image v records bytes) :
    ∃ head entries, HeadOf bytes head
      ∧ head.openTable platform bytes v.keys.metadataKey = .ok entries
      ∧ Tiled bytes head entries := by
  obtain ⟨tableLen, htableLen, hhead⟩ := h.headOf
  obtain ⟨entries, tableLen', -, htableLen', -, -, -, -, hopen, -, -, -, -, -, hframes⟩ := h.layout
  refine ⟨_, entries, hhead, ?_, hhead.tiled ?_⟩
  · rw [VaultHead.openTable, v.tableOffset_eq, htableLen, ← htableLen']
    exact hopen
  · rw [v.tableOffset_eq, htableLen]
    exact hframes

/-- Of the files that open, those are tiled whose `body_len` and header length
are the written ones, a file without frames having no use for the second. -/
theorem VaultIdentity.Accepts.tiled_iff {bytes image : Bytes} {session : UnlockedVault}
    {head : VaultHead} {entries : List RecordTableEntry} {records : List PendingRecord}
    (h : v.Accepts bytes session head entries records image) :
    ∃ bodyLen : UInt64, SegAt image prefixBodyLenOffset (leU64 bodyLen)
      ∧ (Tiled bytes head entries
        ↔ SegAt bytes prefixBodyLenOffset (leU64 bodyLen)
          ∧ (entries = [] ∨ head.headerLen = 147)) := by
  obtain ⟨tableLen, htableLen, himage⟩ := h.image_of.headOf
  obtain ⟨bodyLen, h18, himageLen⟩ := himage.exists_bodyLen
  obtain ⟨bodyLen', h18', hlen⟩ := h.head_of.exists_bodyLen
  have hsum := h.framesFrom.sum_eq
  have htable := h.tableLen_eq
  have hwrk := h.wrkBytes_eq ▸ v.length_wrkBytes
  have hoffset : tableOffset = 369 := rfl
  have hwrkOffset : head.wrkOffset = 26 + head.headerLen.toNat := rfl
  have htableOffset : head.tableOffset = head.wrkOffset + head.wrkBytes.length := rfl
  have himageOffset : VaultHead.wrkOffset ⟨v.header, 147, tableLen, v.wrkFrame,
    v.wrkBytes⟩ = 173 := rfl
  rw [himageOffset] at himageLen
  refine ⟨bodyLen, h18, ⟨fun htiled => ⟨?_, ?_⟩, fun ⟨hbody, hheader⟩ => h.head_of.tiled ?_⟩⟩
  · -- the sum of the parts is the written one
    obtain ⟨declared, hat, hparts⟩ := htiled.bodyLen
    have hsame : declared = bodyLen := UInt64.toNat_inj.mp (by omega)
    rw [← hsame]
    exact hat
  · -- no byte between the table and the first frame
    cases hentries : entries with
    | nil => exact .inl rfl
    | cons entry rest =>
        have hmax := length_le_of_parseHeader h.head_of.header_parsed
        obtain ⟨-, -, -, -, -, -, -, -, -, -, hadmitted, -⟩ :=
          (openSealedRecordTableV2_eq_ok hmax hmax).mp h.opened
        have hframes := h.framesFrom
        rw [hentries] at hframes hadmitted
        have hfirst := hadmitted entry (List.mem_cons_self ..)
        have hstart := hframes.1
        have hle := hfirst.sealedTableEnd_le
        have hend := hfirst.le_fileLen
        have hgap : tableOffset + tableSectionLen records.length
            ≤ head.tableOffset + head.tableLen.toNat := by
          refine htiled.tiles.no_gap (fun s hs => ?_) (by omega)
          rcases List.mem_append.mp hs with hs | hs
          · exact .inl (head.abut_sections.bounds s hs).2.2
          · exact .inr (h.framesFrom.abut.bounds s hs).1
        refine .inr (UInt32.toNat_inj.mp ?_)
        have h147 : (147 : UInt32).toNat = 147 := rfl
        omega
  · -- the written lengths put the frames where they were written
    obtain rfl : bodyLen' = bodyLen := leU64_inj (h18'.unique hbody rfl)
    rcases hheader with hnil | h147
    · have hframes := h.framesFrom
      subst hnil
      have hstart : tableOffset + tableSectionLen records.length = image.length := hframes
      show head.tableOffset + head.tableLen.toNat = bytes.length
      omega
    · have hstart : head.tableOffset + head.tableLen.toNat
          = tableOffset + tableSectionLen records.length := by
        rw [htableOffset, hwrkOffset, h147, htable, hwrk]
        rfl
      have hend : bytes.length = image.length := by
        rw [hlen, himageLen, hwrkOffset, h147]
        rfl
      rw [hstart, hend]
      exact h.framesFrom

/-- In every history the vault's own file is tiled, and of the files that
`unlock` with the right password accepts in its place, under an ideal
cipher, exactly those are that keep the written `body_len`, and the
written header length where there are frames. -/
theorem layout_accounted {password : Bytes} {fs₀ : Fs} {st : VaultState} {calls : Calls β}
    (h : History platform path password fs₀ st calls) (hnodup : (drawnIds calls).Nodup) :
    ∃ (v : VaultIdentity platform) (m : ItemMap) (bytes : Bytes), v.password = password
      ∧ Reached v path st (drawnIds calls) m bytes
      ∧ (∃ head entries, HeadOf bytes head
        ∧ head.openTable platform bytes v.keys.metadataKey = .ok entries ∧ Tiled bytes head entries)
      ∧ ∀ (bytes' : Bytes) (io : IoFaults) (path' : Path) (fs : Fs) (session : UnlockedVault),
        fs path' = some bytes' →
        Authentic platform.cipher (UnlockAsks platform password bytes') v.Seals →
        (unlock platform io path' password fs).1 = .ok session →
        ∃ (head : VaultHead) (entries : List RecordTableEntry) (records : List PendingRecord)
          (image : Bytes) (bodyLen : UInt64),
          v.Accepts bytes' session head entries records image
          ∧ SegAt image prefixBodyLenOffset (leU64 bodyLen)
          ∧ (Tiled bytes' head entries
            ↔ SegAt bytes' prefixBodyLenOffset (leU64 bodyLen)
              ∧ (entries = [] ∨ head.headerLen = 147)) := by
  obtain ⟨v, m, bytes, rfl, hreached⟩ := h.reached hnodup
  obtain ⟨records, himage, -⟩ := hreached.stored
  refine ⟨v, m, bytes, rfl, hreached, himage.tiled, ?_⟩
  intro bytes' io path' fs session hfs hauth hunlock
  rw [unlock_of_some v.password_ne hfs] at hunlock
  cases hread : io.read with
  | true =>
      rw [hread] at hunlock
      cases hunlock
  | false =>
      rw [hread] at hunlock
      obtain ⟨head, entries, records', image, haccepts⟩ := v.accepted_of_unlock hauth hunlock
      obtain ⟨bodyLen, h18, hiff⟩ := haccepts.tiled_iff
      exact ⟨head, entries, records', image, bodyLen, haccepts, h18, hiff⟩

-- ========================================================== trailing bytes

/-- Bytes behind the last frame, counted in `body_len`, change nothing of
what an `unlock` gives. -/
theorem Image.exists_longer {records : List PendingRecord} {bytes extra : Bytes}
    (h : Image v records bytes) (hmax : bytes.length + extra.length ≤ usizeMax) :
    ∃ (bytes' : Bytes) (tableLen : UInt32) (entries : List RecordTableEntry),
      tableLen.toNat = tableSectionLen records.length
      ∧ bytes'.length = bytes.length + extra.length
      ∧ HeadOf bytes' ⟨v.header, 147, tableLen, v.wrkFrame, v.wrkBytes⟩
      ∧ VaultHead.openTable platform bytes' v.keys.metadataKey
          ⟨v.header, 147, tableLen, v.wrkFrame, v.wrkBytes⟩ = .ok entries
      ∧ FramesFrom (tableOffset + tableSectionLen records.length) entries bytes.length
      ∧ ∀ x, x.length = tableLen.toNat →
        (SegAt bytes' tableOffset x ↔ SegAt bytes tableOffset x) := by
  obtain ⟨tableLen, htableLen, hhead⟩ := h.headOf
  obtain ⟨entries, tableLen', -, htableLen', -, -, -, -, hopen, -, -, hle, -, -, hframes⟩ :=
    h.layout
  obtain ⟨-, frames, table, prefixBytes, -, headerLen, tableLen₂, bodyLen, -, -, hleading,
    hheaderLen, htableLen₂, hbodyLen, hbytes, -⟩ := h
  generalize hrest : v.wrkBytes ++ (table ++ frames) = rest at hbytes hbodyLen
  have htable : tableLen₂.toNat ≤ rest.length := by
    rw [htableLen₂, ← hrest]
    simp only [List.length_append]
    omega
  -- the same bytes under a prefix that counts the extra ones
  obtain ⟨hleadingLen, -, -, -, h14, -, hold⟩ := segAt_front (v.headerBytes ++ rest) hleading
  have hleading' : serializePrefix formatVersion headerLen tableLen₂
    (UInt64.ofNat (rest ++ extra).length)
      = .ok _ := serializePrefix_eq_ok.mpr ⟨rfl, rfl⟩
  obtain ⟨hleadingLen', -, -, h10', h14', -, hnew⟩ :=
    segAt_front (v.headerBytes ++ (rest ++ extra)) hleading'
  generalize magic ++ leU16 formatVersion ++ leU32 headerLen ++ leU32 tableLen₂
    ++ leU64 (UInt64.ofNat (rest ++ extra).length) = prefixBytes'
      at hleading' hleadingLen' h10' h14' hnew
  have hlen := congrArg List.length hbytes
  simp only [List.length_append, hleadingLen] at hlen
  have hbodyLen' : (UInt64.ofNat (rest ++ extra).length).toNat = (rest ++ extra).length := by
    have hsmall : usizeMax < UInt64.size := by decide
    refine UInt64.toNat_ofNat_of_lt' ?_
    rw [List.length_append]
    omega
  obtain rfl : tableLen₂ = tableLen := by
    rw [← hbytes] at h14
    exact leU32_inj (h14.unique hhead.tableLen_at rfl)
  have h147 : headerLen = 147 := UInt32.toNat_inj.mp (hheaderLen.trans v.length_headerBytes)
  have hbytes' : (prefixBytes' ++ (v.headerBytes ++ (rest ++ extra))).length
      = bytes.length + extra.length := by
    simp only [List.length_append, hleadingLen']
    omega
  have hparse : parseHeader (prefixBytes' ++ (v.headerBytes ++ (rest ++ extra)))
    = .ok v.header := by
    refine parseHeader_of_serialize v.header_serialized hleading' hheaderLen ?_ hbodyLen' (by omega)
    rw [hbodyLen', List.length_append]
    omega
  -- what stands behind the prefix stands there in both
  have hkept : SegAt (prefixBytes' ++ (v.headerBytes ++ (rest ++ extra))) headerMinLen
      (v.headerBytes ++ rest) := by
    refine (segAt_append.mp (?_ : SegAt _ _ ((v.headerBytes ++ rest) ++ extra))).1
    rw [List.append_assoc]
    exact hnew
  have hsame : ∀ off x, headerMinLen ≤ off → off + x.length ≤ bytes.length →
      (SegAt (prefixBytes' ++ (v.headerBytes ++ (rest ++ extra))) off x ↔ SegAt bytes off x) := by
    intro off x hoff hend
    obtain ⟨off, rfl⟩ := Nat.exists_eq_add_of_le hoff
    rw [← hbytes] at hold
    have hin : off + x.length ≤ (v.headerBytes ++ rest).length := by
      rw [List.length_append]
      omega
    exact ⟨fun hx => hold.trans (hkept.within hx hin), fun hx => hkept.trans (hold.within hx hin)⟩
  have hoff : tableOffset = 369 := rfl
  have hmin : headerMinLen = 26 := rfl
  have hwrk := v.length_wrkBytes
  have hheader := v.length_headerBytes
  have hrestLen := congrArg List.length hrest
  simp only [List.length_append] at hrestLen
  have hown : HeadOf (prefixBytes' ++ (v.headerBytes ++ (rest ++ extra)))
      ⟨v.header, 147, tableLen₂, v.wrkFrame, v.wrkBytes⟩ := by
    refine ⟨hparse, h147 ▸ h10', h14', v.wrk_serialized, ?_, hhead.wrk_length, v.wrk_version,
      hhead.wrk_tag, v.wrk_aad⟩
    have hat := hhead.wrk_at
    have hle := hat.le
    exact (hsame _ _ (Nat.le_add_right ..) hle).mpr hat
  refine ⟨_, tableLen₂, entries, htableLen, hbytes', hown, ?_, hframes, fun x hx => ?_⟩
  · rw [openSealedRecordTableV2_eq_ok hle hle] at hopen
    obtain ⟨hschema, sealedLen, nonce, ciphertext, plaintext, hat, hsealed, hlen', hdec, hholds,
      hadmitted, hids, hoverlap⟩ := hopen
    rw [VaultHead.openTable, v.tableOffset_eq, openSealedRecordTableV2_eq_ok (by omega) (by omega)]
    have hat' := (hsame tableOffset _ (by omega) hat.le).mpr hat
    rw [htableLen, ← htableLen']
    exact ⟨hschema, sealedLen, nonce, ciphertext, plaintext, hat', hsealed, hlen', hdec, hholds,
      fun entry hmem => ⟨(hadmitted entry hmem).kind, (hadmitted entry hmem).wrkFrameEnd_le,
        (hadmitted entry hmem).sealedTableEnd_le, by
          have hend := (hadmitted entry hmem).le_fileLen
          omega⟩, hids, hoverlap⟩
  · refine hsame tableOffset x (by omega) ?_
    omega

/-- Any bytes may follow the last frame, the size ceiling allowing: the
session is the same. -/
theorem Stored.trailing_unbound {m : ItemMap} {bytes : Bytes} (h : Stored v m bytes)
    (extra : Bytes) (hle : storedLen m + extra.length ≤ maxVaultFileLen) (path : Path) :
    ∃ bytes' head entries, bytes'.length = bytes.length + extra.length
      ∧ Authentic platform.cipher (UnlockAsks platform v.password bytes') v.Seals
      ∧ HeadOf bytes' head ∧ head.openTable platform bytes' v.keys.metadataKey = .ok entries
      ∧ FramesFrom (head.tableOffset + head.tableLen.toNat) entries bytes.length
      ∧ unlockBytes platform path v.password bytes' = .ok (v.session path) := by
  have hlen := h.length_eq
  obtain ⟨records, himage, -⟩ := h
  have hmax : maxVaultFileLen ≤ usizeMax := by decide
  obtain ⟨bytes', tableLen, entries, htableLen, hlen', hhead, hopen, hframes, hsame⟩ :=
    himage.exists_longer (by omega : bytes.length + extra.length ≤ usizeMax)
  refine ⟨bytes', _, entries, hlen', himage.authentic_of_head hhead htableLen fun x hat hx =>
    (hsame x hx).mp hat, hhead, hopen, ?_, ?_⟩
  · rw [v.tableOffset_eq, htableLen]
    exact hframes
  · exact unlockBytes_eq_ok.mpr ⟨by omega, _, entries, hhead, v.keys_derived, hopen, rfl, rfl⟩

/-- A file with a byte behind its last frame is not tiled. -/
theorem not_tiled_of_lt {bytes : Bytes} {head : VaultHead} {entries : List RecordTableEntry}
    {stop : Nat} (hframes : FramesFrom (head.tableOffset + head.tableLen.toNat) entries stop)
    (hlt : stop < bytes.length) : ¬ Tiled bytes head entries := by
  intro htiled
  have hall := head.abut_sections.append hframes.abut
  have hgap := htiled.tiles.no_gap (fun s hs => .inl (hall.bounds s hs).2.2) (Nat.le_refl _)
  omega

/-- A vault with one byte behind its last frame, counted in
`body_len`, unlocks. -/
theorem trailing_byte_unlocks :
    ∃ (st : VaultState) (v : VaultIdentity Platform.keyed) (m : ItemMap) (bytes bytes' : Bytes)
      (session : UnlockedVault) (head : VaultHead) (entries : List RecordTableEntry),
      History Platform.keyed samplePath samplePassword noFiles st ([] : Calls Unit)
      ∧ v.password = samplePassword ∧ Reached v samplePath st [] m bytes
      ∧ bytes'.length = bytes.length + 1
      ∧ Authentic Platform.keyed.cipher (UnlockAsks Platform.keyed samplePassword bytes') v.Seals
      ∧ (unlock Platform.keyed IoFaults.none samplePath samplePassword
          (st.fs.set samplePath (some bytes'))).1 = .ok session
      ∧ HeadOf bytes' head
      ∧ head.openTable Platform.keyed bytes' session.keys.metadataKey = .ok entries
      ∧ ¬ Tiled bytes' head entries := by
  obtain ⟨st, session, hhistory, hsession, hoff⟩ : ∃ st session,
      History Platform.keyed samplePath samplePassword noFiles st ([] : Calls Unit)
        ∧ session ∈ st.sessions ∧ AgreesOff samplePath noFiles st.fs :=
    exists_unlocked Platform.keyed_total (⟨rfl, rfl, rfl, rfl, rfl, rfl, rfl, rfl⟩ :
      sampleCreateDraws.Drawn) (by decide) samplePath_hasTmp fun _ => rfl
  obtain ⟨v, m, bytes, hv, hreached⟩ := hhistory.reached List.nodup_nil
  have hempty := hreached.eq_empty
  subst hempty
  obtain ⟨bytes', head, entries, hlen, hauth, hhead, hopen, hframes, hunlock⟩ :=
    hreached.stored.trailing_unbound [0] (by decide) samplePath
  rw [hv] at hauth hunlock
  refine ⟨st, v, _, bytes, bytes', v.session samplePath, head, entries, hhistory, hv,
    hreached, hlen, hauth, ?_, hhead, hopen, ?_⟩
  · rw [unlock_of_some (by decide) (Fs.set_self ..), hunlock]
    rfl
  · refine not_tiled_of_lt hframes ?_
    rw [hlen]
    exact Nat.lt_succ_self _

/-- A fresh vault, and the same vault with one byte behind its last frame:
the second keeps no written `body_len`. -/
theorem layout_accounted_of_sample :
    ∃ (st : VaultState) (v : VaultIdentity Platform.keyed) (bytes bytes' image : Bytes)
      (session : UnlockedVault) (head head' : VaultHead) (entries entries' : List RecordTableEntry)
      (records : List PendingRecord) (bodyLen : UInt64),
      History Platform.keyed samplePath samplePassword noFiles st ([] : Calls Unit)
      ∧ st.fs samplePath = some bytes ∧ HeadOf bytes head ∧ Tiled bytes head entries
      ∧ v.Accepts bytes' session head' entries' records image
      ∧ SegAt image prefixBodyLenOffset (leU64 bodyLen)
      ∧ ¬ (SegAt bytes' prefixBodyLenOffset (leU64 bodyLen)
          ∧ (entries' = [] ∨ head'.headerLen = 147)) := by
  obtain ⟨st, session, hhistory, hsession, hoff⟩ : ∃ st session,
      History Platform.keyed samplePath samplePassword noFiles st ([] : Calls Unit)
        ∧ session ∈ st.sessions ∧ AgreesOff samplePath noFiles st.fs :=
    exists_unlocked Platform.keyed_total (⟨rfl, rfl, rfl, rfl, rfl, rfl, rfl, rfl⟩ :
      sampleCreateDraws.Drawn) (by decide) samplePath_hasTmp fun _ => rfl
  obtain ⟨v, m, bytes, hv, hreached, ⟨head, entries, hhead, -, htiled⟩, haccepted⟩ :=
    layout_accounted hhistory List.nodup_nil
  have hempty := hreached.eq_empty
  subst hempty
  obtain ⟨bytes', head', entries', hlen, hauth, hhead', hopen', hframes, hunlock⟩ :=
    hreached.stored.trailing_unbound [0] (by decide) samplePath
  rw [hv] at hauth hunlock
  have hopens : (unlock Platform.keyed IoFaults.none samplePath samplePassword
      (st.fs.set samplePath (some bytes'))).1 = .ok (v.session samplePath) := by
    rw [unlock_of_some (by decide) (Fs.set_self ..), hunlock]
    rfl
  obtain ⟨head₂, entries₂, records, image, bodyLen, haccepts, h18, hiff⟩ :=
    haccepted bytes' IoFaults.none samplePath _ _ (Fs.set_self ..) hauth hopens
  obtain rfl := haccepts.head_of.unique hhead'
  obtain rfl : entries₂ = entries' := Except.ok.inj (haccepts.opened.symm.trans hopen')
  refine ⟨st, v, bytes, bytes', image, _, head, head₂, entries, entries₂, records,
    bodyLen, hhistory, hreached.file, hhead, htiled, haccepts, h18, fun hkept => ?_⟩
  refine not_tiled_of_lt hframes ?_ (hiff.mpr hkept)
  rw [hlen]
  exact Nat.lt_succ_self _

end MeissnerSeal
