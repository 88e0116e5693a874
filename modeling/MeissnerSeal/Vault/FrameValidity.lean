/-
Which of the frames a table lists the frame parser accepts.

# Two kinds of frame

`delete` seals nothing: a tombstone's frame has an empty ciphertext, and
`parse_record_frame` rejects a ciphertext shorter than a tag. No reader of
items looks at a tombstone, so the table goes on listing it. The frame of an
item parses, with the ids and the associated data its entry tells
(`entryValid_iff_kind`).

# A run

What was deleted stays in the table (`History.dead_iff_deleted`), so a
reader of every frame stumbles exactly over what a run has deleted
(`entry_valid_iff_not_deleted`).
-/
import MeissnerSeal.Vault.Provenance
import MeissnerSeal.Vault.Unlockable

namespace MeissnerSeal

open ByteCodec ExceptRules

variable {β : Type} {platform : Platform} {v : VaultIdentity platform} {m : ItemMap} {bytes : Bytes}
  {path : Path} {fs : Fs} {password : Bytes} {fs₀ : Fs} {st : VaultState} {calls : Calls β}

/-- The frame an entry points to parses, with the entry's ids and the
associated data they and the header make. -/
def EntryValid (bytes : Bytes) (header : VaultHeader) (entry : RecordTableEntry) : Prop :=
  ∃ tail frame, slice? bytes entry.frameOffset.toNat bytes.length = some tail
    ∧ parseRecordFrame tail entry.frameLen header.aeadProfile = .ok frame
    ∧ frame.recordId = entry.recordId ∧ frame.revisionId = entry.revisionId
    ∧ frame.storedAad = itemRecordAad header entry.recordId entry.revisionId entry.recordKind

-- ================================================================= one entry

/-- The frame of an item is valid. -/
theorem EntryFor.valid_of_holdsItem {entry : RecordTableEntry} {record : PendingRecord}
    {draws : Draws} {itemWrapKey : Key} {item : PlainItem} (hentry : EntryFor bytes entry record)
    (hholds : record.HoldsItem platform draws itemWrapKey v.header item) :
    EntryValid bytes v.header entry := by
  obtain ⟨len, frameNonce, _, _, _, _, wrapped, ct, envelopeBytes, -, -, -, -, -, -,
    hwrap, henvelope, hlen, hframe, -⟩ := of_buildItemFrame hholds.frameBytes
  obtain ⟨-, -, rekLen, payloadLen, -, -, henvelopeBytes⟩ :=
    serializeItemRecordFrameEnvelope_eq_ok.mp henvelope
  have hwrapLen := platform.cipher.length_encrypt hwrap
  rw [List.Vector.toList_length] at hwrapLen
  have htag : 16 ≤ envelopeBytes.length := by
    have hlength := congrArg List.length henvelopeBytes
    simp only [List.length_append, List.Vector.toList_length, length_leU32] at hlength
    omega
  obtain ⟨tail, htail, htailLen, hhead⟩ := hentry.frame.exists_tail
  have hparse := parseRecordFrame_of_segAt hframe rfl htag hhead hentry.frameLen
  rw [← v.profiles.2.2] at hparse
  refine ⟨tail, _, slice?_eq_some_iff.mpr ⟨htail, htailLen⟩, hparse, hentry.recordId.symm,
    hentry.revisionId.symm, ?_⟩
  rw [hentry.recordId, hentry.revisionId, hentry.recordKind, hholds.recordKind]

/-- A valid frame has room for a tag. -/
theorem EntryValid.le_frameLen {entry : RecordTableEntry} (h : EntryValid bytes v.header entry) :
    164 ≤ entry.frameLen.toNat := by
  obtain ⟨tail, frame, htail, hparse, -⟩ := h
  have htailLen := (slice?_eq_some_iff.mp htail).2
  rw [v.profiles.2.2] at hparse
  obtain ⟨-, htag, x, hx, -, hlen⟩ := parseRecordFrame_eq_ok.mp hparse
  have hframeLen := length_of_serializeRecordFrame hx
  rw [frameLenFor] at hframeLen
  omega

/-- The frame of a tombstone is too short to parse. -/
theorem EntryFor.not_valid_of_tombstone {entry : RecordTableEntry} {record : PendingRecord}
    (hentry : EntryFor bytes entry record)
    (hlen : record.frameBytes.length = storedFrameLen none) :
    ¬ EntryValid bytes v.header entry := by
  intro hvalid
  have hle := hvalid.le_frameLen
  rw [hentry.frameLen, hlen, storedFrameLen] at hle
  omega

/-- Of the frames a history builds, the valid ones are those of items. -/
theorem EntryFor.entryValid_iff_kind {entry : RecordTableEntry} {record : PendingRecord}
    (hentry : EntryFor bytes entry record)
    (hbuilt : v.Built calls record) :
    EntryValid bytes v.header entry ↔ entry.recordKind = recordKindItem := by
  have hkinds : recordKindTombstone ≠ recordKindItem := by decide
  rw [hentry.recordKind]
  rcases hbuilt with ⟨draws, item, -, hitem⟩ | ⟨draws, htombstone⟩
  · exact iff_of_true (hentry.valid_of_holdsItem hitem) hitem.recordKind
  · rw [htombstone.recordKind]
    have hlen := length_of_tombstoneFrame htombstone.frameBytes
    exact iff_of_false (hentry.not_valid_of_tombstone hlen) hkinds

-- ==================================================================== a run

/-- A successful call buries what it deletes, and nothing else. -/
theorem Stored.dead_after_ok {call : StoreCall β} {ids : List ItemId} (h : Stored v m bytes)
    (hfs : fs path = some bytes) (hkeys : ∀ id ∈ m.keys, id ∈ ids)
    (hnodup : (ids ++ call.drawn).Nodup)
    (hok : (call.run platform (v.session path) fs).1.WroteOk) (id : ItemId) :
    (call.apply platform m).status id = some none
      ↔ m.status id = some none ∨ ∃ env, call = .mutate env (.delete id) := by
  have hfile : fs (v.session path).path = some bytes := hfs
  have hsession : (v.session path).keys = v.keys := rfl
  cases call with
  | list io => simp [StoreCall.apply]
  | withItem io id f => simp [StoreCall.apply]
  | importBundle env bundle passphrase =>
      have hpush : ∀ (items : List PlainItem) (i : Nat) (m : ItemMap),
          (env.pushDrawn i items m).status id = some none ↔ m.status id = some none := by
        intro items
        induction items with
        | nil => exact fun _ _ => Iff.rfl
        | cons item items ih =>
            intro i m
            rw [ImportEnv.pushDrawn]
            cases env.idAt i with
            | none => exact ih (i + 1) m
            | some drawn => exact (ih (i + 1) _).trans (m.status_insert_eq_dead drawn id item)
      simp only [StoreCall.apply, reduceCtorEq, exists_false, or_false]
      cases authenticate platform bundle passphrase with
      | error e => rfl
      | ok items => exact hpush items 0 m
  | mutate env call =>
      have hfresh := Mutation.fresh_of_nodup hkeys hnodup
      have hok' : ∃ r, (call.run platform env (v.session path) fs).1 = .ok r := hok
      obtain ⟨r, hr⟩ := hok'
      have hrun : call.run platform env (v.session path) fs
          = (.ok r, (call.run platform env (v.session path) fs).2) := Prod.ext hr rfl
      cases call with
      | add item =>
          simp only [StoreCall.apply, Mutation.apply, StoreCall.mutate.injEq,
            reduceCtorEq, and_false, exists_false, or_false]
          cases env.draws.recordId with
          | none => rfl
          | some drawn => exact m.status_insert_eq_dead drawn id item
      | update target item =>
          obtain ⟨⟨-, -, old, hlive⟩, -⟩ :=
            h.of_run_ok hfile hsession hfresh (fun _ => Mutation.noConfusion) hrun
          simp only [StoreCall.apply, Mutation.apply, StoreCall.mutate.injEq,
            reduceCtorEq, and_false, exists_false, or_false, TombstoneMap.status_assign]
          by_cases hid : id = target
          · rw [if_pos hid, hid, hlive]
            simp
          · rw [if_neg hid]
      | delete target =>
          have hfound : ∃ content, m.status target = some content := by
            by_cases hcommits : (Mutation.delete target).Commits env (v.session path).path fs m
            · obtain ⟨⟨-, old, hlive⟩, -⟩ := hcommits
              exact ⟨_, hlive⟩
            · obtain ⟨fs', -, ⟨e, herror⟩ | ⟨-, -, dead, hdelete, hdead⟩⟩ :=
                h.run_of_not_commits hfile hsession hcommits
              · rw [hrun] at herror
                cases herror
              · rw [Mutation.delete.injEq] at hdelete
                exact ⟨_, hdelete ▸ hdead⟩
          obtain ⟨content, hcontent⟩ := hfound
          simp only [StoreCall.apply, Mutation.apply, StoreCall.mutate.injEq, Mutation.delete.injEq,
            exists_and_right, exists_eq', true_and, TombstoneMap.status_assign]
          by_cases hid : id = target
          · rw [if_pos hid, hcontent]
            simp [hid]
          · rw [if_neg hid]
            simp [Ne.symm hid]

/-- In a run of calls that succeed, the deleted ids are those some
call deleted. -/
theorem History.dead_iff_deleted (h : History platform path password fs₀ st calls)
    (hok : ∀ entry ∈ calls, entry.2.WroteOk) (hnodup : (drawnIds calls).Nodup) (id : ItemId) :
    (MeissnerSeal.storedMap platform calls).status id = some none
      ↔ ∃ env reply, (.mutate env (.delete id), reply) ∈ calls := by
  induction h with
  | created hcreate =>
      show (TombstoneMap.empty : ItemMap).status id = some none ↔ _
      simp [TombstoneMap.status, TombstoneMap.empty]
  | unlocked _ _ ih => exact ih hok hnodup
  | @called st calls session hhistory hsession call ih =>
      have hcalls : ∀ entry ∈ calls, entry.2.WroteOk :=
        fun entry hmem => hok entry (List.mem_append_left _ hmem)
      rw [drawnIds_append] at hnodup
      have hdrawn := (List.nodup_append.mp hnodup).1
      obtain ⟨v, bytes, -, hreached⟩ := hhistory.storedMap hcalls hdrawn
      have hcall := hok _ (List.mem_append_right _ (List.mem_singleton_self _))
      rw [hreached.sessions _ hsession] at hcall
      rw [storedMap_append, hreached.stored.dead_after_ok hreached.file
        hreached.keys_drawn hnodup hcall, ih hcalls hdrawn]
      simp only [List.mem_append, List.mem_singleton, Prod.mk.injEq, exists_or]
      refine or_congr_right ⟨?_, ?_⟩
      · rintro ⟨env, hdelete⟩
        exact ⟨env, _, hdelete.symm, rfl⟩
      · rintro ⟨env, reply, hdelete, -⟩
        exact ⟨env, hdelete.symm⟩

/-- The file after a run of calls that succeed: the map they make, in
records they built. -/
theorem History.storedMap_built (h : History platform path password fs₀ st calls)
    (hok : ∀ entry ∈ calls, entry.2.WroteOk) (hnodup : (drawnIds calls).Nodup) :
    ∃ (v : VaultIdentity platform) (bytes : Bytes), v.password = password
      ∧ Reached v path st (drawnIds calls) (MeissnerSeal.storedMap platform calls) bytes
      ∧ FileListsOnly platform (v.session path) v.header (v.Built calls) st.fs := by
  obtain ⟨w, bytes, hw, hreached⟩ := h.storedMap hok hnodup
  obtain ⟨v, m, bytes', hv, hreached', hlists⟩ := h.lists_built hnodup
  obtain rfl : bytes = bytes' := Option.some.inj (hreached.file.symm.trans hreached'.file)
  obtain rfl := hreached'.stored.identity_eq hreached.stored (hv.trans hw.symm)
  rw [hreached'.stored.unique hreached.stored rfl] at hreached'
  exact ⟨v, bytes, hv, hreached', hlists⟩

/-- After any run of calls that succeed, the frame parser accepts an entry
of the table exactly when the run has not deleted its record, and every
entry exactly when the run has deleted nothing. -/
theorem entry_valid_iff_not_deleted (h : History platform path password fs₀ st calls)
    (hok : ∀ entry ∈ calls, entry.2.WroteOk) (hnodup : (drawnIds calls).Nodup) :
    ∃ (v : VaultIdentity platform) (bytes : Bytes) (loaded : LoadedVault), v.password = password
      ∧ Reached v path st (drawnIds calls) (MeissnerSeal.storedMap platform calls) bytes
      ∧ loadVaultBytes platform (v.session path) bytes = .ok loaded
      ∧ (∀ entry ∈ loaded.entries, EntryValid bytes loaded.header entry
          ↔ ∀ env reply, (.mutate env (.delete entry.recordId), reply) ∉ calls)
      ∧ ((∀ entry ∈ loaded.entries, EntryValid bytes loaded.header entry)
          ↔ ∀ env id reply, (.mutate env (.delete id), reply) ∉ calls) := by
  obtain ⟨v, bytes, hv, hreached, bytes', hfile, hlists⟩ := h.storedMap_built hok hnodup
  obtain rfl : bytes = bytes' := Option.some.inj (hreached.file.symm.trans hfile)
  obtain ⟨records, loaded, hload, hloaded, -, hstores⟩ :=
    hreached.stored.load (v.session_keys path)
  have hbuilt := hlists.listed loaded records hload hloaded.entries_for_loaded
  have hvalid : ∀ entry ∈ loaded.entries, EntryValid bytes loaded.header entry
      ↔ ∀ env reply, (.mutate env (.delete entry.recordId), reply) ∉ calls := by
    intro entry hentry
    obtain ⟨record, hrecord, hfor⟩ := hloaded.entries_for.exists_of_mem hentry
    obtain ⟨⟨id, content⟩, hmem, hstored⟩ := hstores.exists_of_mem hentry
    have hstatus := TombstoneMap.status_eq_some.mpr hmem
    have hid : entry.recordId = id := hstored.recordId_eq
    have hkind : entry.recordKind = recordKindItem ↔ content ≠ none := by
      have hkinds : recordKindTombstone ≠ recordKindItem := by decide
      rw [hstored.recordKind_eq]
      cases content with
      | none => simp [hkinds]
      | some item => simp
    have hdead := h.dead_iff_deleted hok hnodup id
    rw [hstatus, Option.some.injEq] at hdead
    rw [hloaded.header_eq, hfor.entryValid_iff_kind (hbuilt record hrecord), hkind,
      hid, Ne, hdead, not_exists]
    exact forall_congr' fun env => not_exists
  refine ⟨v, bytes, loaded, hv, hreached, hload, hvalid, fun hall env id reply hdelete => ?_,
    fun hnone entry hentry => (hvalid entry hentry).mpr fun env reply => hnone env _ reply⟩
  -- a deleted id is still listed
  have hdead := (h.dead_iff_deleted hok hnodup id).mpr ⟨env, reply, hdelete⟩
  obtain ⟨entry, hentry, hstored⟩ :=
    hstores.flip.exists_of_mem (TombstoneMap.status_eq_some.mp hdead)
  have hid : entry.recordId = id := EntryStores.recordId_eq hstored
  exact (hvalid entry hentry).mp (hall entry hentry) env reply (hid ▸ hdelete)

/-- After an add and a delete, both successful, the table lists a frame
that does not parse. -/
theorem deleted_entry_invalid :
    ∃ (st : VaultState) (calls : Calls Unit) (v : VaultIdentity Platform.transparent)
      (bytes : Bytes)
      (loaded : LoadedVault) (entry : RecordTableEntry),
      History Platform.transparent samplePath samplePassword noFiles st calls
      ∧ (∀ entry ∈ calls, entry.2.WroteOk) ∧ (drawnIds calls).Nodup
      ∧ v.session samplePath ∈ st.sessions ∧ st.fs samplePath = some bytes
      ∧ loadVaultBytes Platform.transparent (v.session samplePath) bytes = .ok loaded
      ∧ entry ∈ loaded.entries ∧ entry.recordId = zeroId
      ∧ ¬ EntryValid bytes loaded.header entry := by
  obtain ⟨st, v, m, bytes, hhistory, hsession, hoff, -, hfs, hstored, hlive⟩ :=
    @sample_added_history Unit _ (storedFrameLen_lt sampleItem_withinLimits)
  have hfile : st.fs (v.session samplePath).path = some bytes := hfs
  have hstatus : m.status zeroId = some (some sampleItem) :=
    TombstoneMap.mem_live.mp (hlive ▸ List.mem_singleton_self _)
  have hcommits : (Mutation.delete zeroId).Commits sampleEnv (v.session samplePath).path st.fs m :=
    ⟨⟨(drawsWith_forAdd zeroId zeroId).toForFrame, sampleItem, hstatus⟩, sampleEnv_persists hoff⟩
  obtain ⟨out, hdelete, hstored'⟩ := hstored.delete_of_commits hfile rfl hcommits
  have hrun : StoreCall.run Platform.transparent (v.session samplePath)
      (.mutate sampleEnv (.delete zeroId) : StoreCall Unit) st.fs
      = (.mutated (.ok none), st.fs.set samplePath (some out)) := by
    simp only [StoreCall.run, Mutation.run, FsM.bind_apply, hdelete]
    rfl
  have hcalled := hhistory.called hsession (.mutate sampleEnv (.delete zeroId))
  rw [hrun] at hcalled
  have hout : st.fs.set samplePath (some out) samplePath = some out := Fs.set_self ..
  obtain ⟨records, loaded, hload, hloaded, -, hstores⟩ := hstored'.load (v.session_keys samplePath)
  -- the tombstone is the entry of the deleted id
  have hdead : (m.assign zeroId none).status zeroId = some none := by
    rw [TombstoneMap.status_assign, if_pos rfl, hstatus]
    rfl
  obtain ⟨entry, hentry, record, hfor, hid, -, hlen⟩ :=
    hstores.flip.exists_of_mem (TombstoneMap.status_eq_some.mp hdead)
  rw [hloaded.bytes_eq] at hfor
  refine ⟨_, _, v, out, loaded, entry, hcalled, ?_, List.nodup_singleton zeroId, hsession,
    hout, hload, hentry, hfor.recordId.trans hid, ?_⟩
  · intro entry hmem
    rcases List.mem_append.mp hmem with hadd | hdelete
    · rw [List.mem_singleton.mp hadd]
      exact ⟨some zeroId, rfl⟩
    · rw [List.mem_singleton.mp hdelete]
      exact ⟨none, rfl⟩
  · rw [hloaded.header_eq]
    exact hfor.not_valid_of_tombstone hlen

/-- The one entry of a vault with one item. -/
theorem entry_valid_iff_not_deleted_of_sample :
    ∃ (st : VaultState) (calls : Calls Unit) (v : VaultIdentity Platform.transparent)
      (bytes : Bytes) (loaded : LoadedVault),
      History Platform.transparent samplePath samplePassword noFiles st calls
      ∧ st.fs samplePath = some bytes
      ∧ loadVaultBytes Platform.transparent (v.session samplePath) bytes = .ok loaded
      ∧ loaded.entries.length = 1 ∧ ∀ entry ∈ loaded.entries,
        EntryValid bytes loaded.header entry := by
  obtain ⟨st, -, -, -, hhistory, -⟩ :=
    @sample_added_history Unit _ (storedFrameLen_lt sampleItem_withinLimits)
  have hok : ∀ entry ∈ ([(.mutate sampleEnv (.add sampleItem),
      .mutated (.ok (some zeroId)))] : Calls Unit), entry.2.WroteOk := by
    intro entry hmem
    rw [List.mem_singleton.mp hmem]
    exact ⟨some zeroId, rfl⟩
  obtain ⟨v, bytes, loaded, -, hreached, hload, -, hall⟩ :=
    entry_valid_iff_not_deleted hhistory hok (List.nodup_singleton zeroId)
  obtain ⟨records, loaded', hload', hloaded, -, hstores⟩ :=
    hreached.stored.load (v.session_keys samplePath)
  obtain rfl := Except.ok.inj (hload.symm.trans hload')
  refine ⟨st, _, v, bytes, loaded, hhistory, hreached.file, hload, hstores.length_eq, hall.mpr ?_⟩
  intro env id reply hmem
  cases List.mem_singleton.mp hmem

end MeissnerSeal
