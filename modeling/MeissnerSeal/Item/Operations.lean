/-
What the store's plans and reads do to a stored map: each operation of
`item/store.rs` on a file that stores `m` is one operation on `m`.

# Success

A plan fails for four reasons only: a draw failed, the item's frame does
not fit a `u32`, the table is full, the id is not in the state the
operation needs. Each operation has one lemma that inverts a success and
one that gives it.
-/
import MeissnerSeal.Item.Stored

namespace MeissnerSeal

open ByteCodec ExceptRules

variable {platform : Platform} {v : VaultIdentity platform} {m : ItemMap} {bytes : Bytes}
  {session : UnlockedVault} {draws : Draws}

-- =============================================================== loading

/-- A table entry, its frame, and the map entry they store. -/
def EntryStores (v : VaultIdentity platform) (bytes : Bytes) (entry : RecordTableEntry)
    (stored : ItemId × Option PlainItem) : Prop :=
  ∃ record, EntryFor bytes entry record ∧ RecordFor v record stored

/-- An entry has the id of what it stores. -/
theorem EntryStores.recordId_eq {entry : RecordTableEntry} {stored : ItemId × Option PlainItem}
    (h : EntryStores v bytes entry stored) : entry.recordId = stored.1 := by
  obtain ⟨record, hentry, hrecord⟩ := h
  rw [hentry.recordId, hrecord.1]

/-- The kind of an entry tells a live item from a tombstone. -/
theorem EntryStores.recordKind_eq {entry : RecordTableEntry}
    {stored : ItemId × Option PlainItem} (h : EntryStores v bytes entry stored) :
    entry.recordKind = if stored.2.isSome then recordKindItem else recordKindTombstone := by
  obtain ⟨record, hentry, -, hholds⟩ := h
  obtain ⟨id, content⟩ := stored
  rw [hentry.recordKind]
  cases content with
  | none => exact hholds.1
  | some item => exact hholds.1

/-- Everything an operation needs of the file it has read. -/
theorem Stored.load (h : Stored v m bytes) (hkeys : session.keys = v.keys) :
    ∃ records loaded, loadVaultBytes platform session bytes = .ok loaded
      ∧ LoadedFrom v records bytes loaded ∧ List.Forall₂ (RecordFor v) records m.entries
      ∧ List.Forall₂ (EntryStores v loaded.bytes) loaded.entries m.entries := by
  obtain ⟨records, himage, hrecords⟩ := h
  obtain ⟨loaded, hload, hloaded⟩ := himage.loadVaultBytes hkeys
  exact ⟨records, loaded, hload, hloaded, hrecords, hloaded.entries_for_loaded.comp hrecords⟩

/-- A stored table is never over capacity. -/
theorem Stored.size_le (h : Stored v m bytes) : m.size ≤ maxRecords := by
  obtain ⟨records, himage, hrecords⟩ := h
  obtain ⟨-, tableLen, -, htableLen, -⟩ := himage.parts
  have hlt := tableLen.toNat_lt
  rw [htableLen, hrecords.length_eq] at hlt
  by_contra hnot
  have hle := le_paddedTableLen (not_le.mp hnot)
  rw [tableSectionLen] at hlt
  rw [TombstoneMap.size] at hle
  omega

/-- Stored frames fit a `u32`. -/
theorem LoadedFrom.frame_lt {records : List PendingRecord} {loaded : LoadedVault}
    (h : LoadedFrom v records bytes loaded) :
    ∀ record ∈ records, record.frameBytes.length < 2 ^ 32 := by
  intro record hmem
  obtain ⟨i, hlt, rfl⟩ := List.getElem_of_mem hmem
  obtain ⟨entry, -, hentry⟩ := h.entries_for.exists_of_getElem? (List.getElem?_eq_getElem hlt)
  rw [← hentry.frameLen]
  exact entry.frameLen.toNat_lt

/-- The table search for a live id is the map's. -/
theorem liveItemPosition_eq {loaded : LoadedVault}
    (h : List.Forall₂ (EntryStores v loaded.bytes) loaded.entries m.entries) (id : ItemId) :
    liveItemPosition loaded id = m.entries.findIdx? (TombstoneMap.isLive id) := by
  refine h.findIdx?_eq fun entry stored hstores => ?_
  rw [hstores.recordId_eq, hstores.recordKind_eq]
  have hkinds : recordKindTombstone ≠ recordKindItem := by decide
  cases hstored : stored.2 with
  | none => simp [TombstoneMap.isLive, hstored, hkinds]
  | some item => simp [TombstoneMap.isLive, hstored]

-- ============================================================== rewriting

/-- The random values of a rewrite around a new frame are drawn. -/
structure Draws.ForFrame (draws : Draws) : Prop where
  revisionId : draws.revisionId.isSome
  frameNonce : draws.frameNonce.isSome
  tableNonce : draws.tableNonce.isSome
  uniqueSeed : draws.uniqueSeed.isSome

/-- And those that seal an item. -/
structure Draws.ForItem (draws : Draws) : Prop extends draws.ForFrame where
  rek : draws.rek.isSome
  payloadNonce : draws.payloadNonce.isSome
  rekWrapNonce : draws.rekWrapNonce.isSome

/-- And the id of a new record. -/
structure Draws.ForAdd (draws : Draws) : Prop extends draws.ForItem where
  recordId : draws.recordId.isSome

/-- A plan to rewrite is the bytes, and a seed for the temporary name. -/
theorem planRewrite_eq_ok {α : Type} {loaded : LoadedVault} {records : List PendingRecord}
    {value : α} {plan : Plan α} :
    planRewrite platform draws session loaded records value = .ok plan
      ↔ ∃ out seed, rewrittenVault platform draws session loaded records = .ok out
          ∧ draws.uniqueSeed = some seed ∧ plan = ⟨value, some (out, seed)⟩ := by
  simp only [planRewrite, freshId, bind_eq_ok, okOr_eq_ok, pure_eq_ok, Except.ok.injEq]
  constructor
  · rintro ⟨out, hout, seed, hseed, rfl⟩
    exact ⟨out, seed, hout, hseed, rfl⟩
  · rintro ⟨out, seed, hout, hseed, rfl⟩
    exact ⟨out, hout, seed, hseed, rfl⟩

/-- The records of a map have its ids, in order. -/
theorem map_recordId {records : List PendingRecord} {entries : List (ItemId × Option PlainItem)}
    (h : List.Forall₂ (RecordFor v) records entries) :
    records.map PendingRecord.recordId = entries.map Prod.fst := by
  induction h with
  | nil => rfl
  | cons hrecord _ ih => rw [List.map_cons, List.map_cons, ih, hrecord.1]

/-- Items and tombstones are of kinds the table lists. -/
theorem admissible_of_recordFor {records : List PendingRecord}
    {entries : List (ItemId × Option PlainItem)}
    (h : List.Forall₂ (RecordFor v) records entries) :
    ∀ record ∈ records, AdmissibleKind record.recordKind := by
  induction h with
  | nil => simp
  | cons hrecord _ ih => exact List.forall_mem_cons.mpr ⟨hrecord.2.admissible, ih⟩

/-- A rewrite over records that store `m'` stores `m'`. -/
theorem LoadedFrom.stored_of_rewritten {records records' : List PendingRecord}
    {loaded : LoadedVault} {m' : ItemMap} {out : Bytes} (h : LoadedFrom v records bytes loaded)
    (hkeys : session.keys = v.keys) (hrecords : List.Forall₂ (RecordFor v) records' m'.entries)
    (hwrite : rewrittenVault platform draws session loaded records' = .ok out) :
    Stored v m' out := by
  refine ⟨records', h.image_of_rewritten hkeys ?_ hwrite, hrecords⟩
  rw [map_recordId hrecords]
  exact m'.nodup

/-- What a successful rewrite tells of its records. -/
theorem of_rewrittenVault {records' : List PendingRecord} {loaded : LoadedVault} {out : Bytes}
    (hwrite : rewrittenVault platform draws session loaded records' = .ok out) :
    draws.tableNonce.isSome ∧ records'.length ≤ maxRecords
      ∧ ∀ record ∈ records', record.frameBytes.length < 2 ^ 32 := by
  simp only [rewrittenVault, u32Len, bind_eq_ok, okOr_eq_ok, rejectIf_eq_ok, checkedAdd_eq_some,
    u32TryFrom_eq_some, pure_eq_ok] at hwrite
  obtain ⟨_, -, _, -, _, -, _, -, _, -, _, -, ⟨entries, frames⟩, hlayout, table, htable, -, -, _, -,
    _, -, _, -, tableLen, htableLen, -⟩ := hwrite
  obtain ⟨hlen, -⟩ := layoutRecords_spec [] hlayout
  have hsection := length_of_serializeSealedRecordTableV2 htable
  obtain ⟨-, -, -, -, -, nonce, -, -, hdraw, -⟩ := serializeSealedRecordTableV2_eq_ok.mp htable
  refine ⟨by rw [hdraw]; rfl, ?_, ?_⟩
  · by_contra hnot
    have hle := le_paddedTableLen (not_le.mp hnot)
    have hlt := tableLen.toNat_lt
    rw [htableLen, hsection, hlen, tableSectionLen] at hlt
    omega
  · exact layoutRecords_frame_lt hlayout

-- =================================================================== add

/-- What a successful `add` plans: the table one live item longer. -/
theorem Stored.of_planAdd {item : PlainItem} {plan : Plan ItemId} (h : Stored v m bytes)
    (hkeys : session.keys = v.keys)
    (hplan : planAdd platform draws session item bytes = .ok plan) :
    ∃ id seed out, plan = ⟨id, some (out, seed)⟩ ∧ draws.recordId = some id
      ∧ draws.uniqueSeed = some seed ∧ m.size < maxRecords
      ∧ storedFrameLen (some item) < 2 ^ 32 ∧ draws.ForAdd
      ∧ ∀ hfresh : id ∉ m.keys, Stored v (m.push id item hfresh) out := by
  obtain ⟨records, loaded, hload, hloaded, hrecords, -⟩ := h.load hkeys
  simp only [planAdd, freshId, bind_eq_ok, okOr_eq_ok, hload, Except.ok.injEq] at hplan
  obtain ⟨_, rfl, id, hid, revisionId, hrevision, frameBytes, hframe, staged, hstaged,
    hplan⟩ := hplan
  rw [hloaded.stageRecords_append, Except.ok.injEq] at hstaged
  subst hstaged
  obtain ⟨out, seed, hwrite, hseed, rfl⟩ := planRewrite_eq_ok.mp hplan
  rw [hkeys, hloaded.header_eq] at hframe
  obtain ⟨hholds, hrek, hpayload, hwrap, hnonce⟩ := holds_of_buildItemFrame hframe
  obtain ⟨htable, hcount, hlens⟩ := of_rewrittenVault hwrite
  have hlen := hlens _ (List.mem_append_right _ (List.mem_singleton_self _))
  rw [hholds.length_eq] at hlen
  rw [List.length_append, List.length_singleton, hrecords.length_eq] at hcount
  refine ⟨id, seed, out, rfl, hid, hseed, hcount, hlen,
    ⟨⟨⟨by rw [hrevision]; rfl, hnonce, htable, by rw [hseed]; rfl⟩, hrek, hpayload, hwrap⟩,
      by rw [hid]; rfl⟩, fun hfresh => ?_⟩
  refine hloaded.stored_of_rewritten hkeys ?_ hwrite
  exact List.rel_append hrecords (List.Forall₂.cons ⟨rfl, hholds⟩ List.Forall₂.nil)

/-- An `add` succeeds when everything is drawn, the item fits and the
table is not full. -/
theorem Stored.exists_planAdd {item : PlainItem} (h : Stored v m bytes)
    (hkeys : session.keys = v.keys) (hdraws : draws.ForAdd)
    (hlen : storedFrameLen (some item) < 2 ^ 32) (hsize : m.size < maxRecords) :
    ∃ plan, planAdd platform draws session item bytes = .ok plan := by
  obtain ⟨records, loaded, hload, hloaded, hrecords, -⟩ := h.load hkeys
  obtain ⟨id, hid⟩ := Option.isSome_iff_exists.mp hdraws.recordId
  obtain ⟨revisionId, hrevision⟩ := Option.isSome_iff_exists.mp hdraws.revisionId
  obtain ⟨rek, hrek⟩ := Option.isSome_iff_exists.mp hdraws.rek
  obtain ⟨payloadNonce, hpayload⟩ := Option.isSome_iff_exists.mp hdraws.payloadNonce
  obtain ⟨wrapNonce, hwrap⟩ := Option.isSome_iff_exists.mp hdraws.rekWrapNonce
  obtain ⟨frameNonce, hnonce⟩ := Option.isSome_iff_exists.mp hdraws.frameNonce
  obtain ⟨tableNonce, htable⟩ := Option.isSome_iff_exists.mp hdraws.tableNonce
  obtain ⟨seed, hseed⟩ := Option.isSome_iff_exists.mp hdraws.uniqueSeed
  obtain ⟨frameBytes, hframe⟩ : ∃ x, buildItemFrame platform draws item v.keys.itemWrapKey
      v.header id revisionId = .ok x :=
    exists_buildItemFrame id revisionId hrek hpayload hwrap hnonce hlen
  have hholds := (holds_of_buildItemFrame hframe).1
  obtain ⟨out, hwrite⟩ : ∃ out, rewrittenVault platform draws session loaded
      (records ++ [⟨id, recordKindItem, revisionId, frameBytes⟩]) = .ok out := by
    refine hloaded.sections.exists_rewritten htable ?_ ?_ ?_
    · intro record hmem
      rcases List.mem_append.mp hmem with hmem | hmem
      · exact hloaded.frame_lt record hmem
      · rw [List.mem_singleton.mp hmem, hholds.length_eq]
        exact hlen
    · intro record hmem
      rcases List.mem_append.mp hmem with hmem | hmem
      · exact admissible_of_recordFor hrecords record hmem
      · rw [List.mem_singleton.mp hmem]
        exact hholds.admissible
    · rw [List.length_append, List.length_singleton, hrecords.length_eq]
      exact hsize
  refine ⟨⟨id, some (out, seed)⟩, ?_⟩
  simp only [planAdd, freshId, hload, ok_bind, hid, hrevision, okOr_some, hkeys, hloaded.header_eq,
    hframe, hloaded.stageRecords_append]
  exact planRewrite_eq_ok.mpr ⟨out, seed, hwrite, hseed, rfl⟩

-- ==================================================== update and delete

/-- What writing a replacement over a live item plans. -/
theorem LoadedFrom.stored_of_set {records : List PendingRecord} {loaded : LoadedVault}
    {id : ItemId} {content old : Option PlainItem} {position : Nat} {pending : PendingRecord}
    {out : Bytes} (h : LoadedFrom v records bytes loaded) (hkeys : session.keys = v.keys)
    (hrecords : List.Forall₂ (RecordFor v) records m.entries)
    (hposition : m.entries[position]? = some (id, old))
    (hpending : RecordFor v pending (id, content))
    (hwrite : rewrittenVault platform draws session loaded (records.set position pending)
      = .ok out) : Stored v (m.assign id content) out := by
  refine h.stored_of_rewritten hkeys ?_ hwrite
  rw [TombstoneMap.entries_assign hposition]
  exact hrecords.set hpending position

/-- Where the table search finds a live id, the map holds it. -/
theorem Stored.live_of_position {loaded : LoadedVault} {id : ItemId} {position : Nat}
    (h : List.Forall₂ (EntryStores v loaded.bytes) loaded.entries m.entries)
    (hposition : liveItemPosition loaded id = some position) :
    ∃ old, m.status id = some (some old) ∧ m.entries[position]? = some (id, some old) := by
  rw [liveItemPosition_eq h] at hposition
  have hlive : ∃ old, m.status id = some (some old) := by
    by_contra hnot
    rw [TombstoneMap.findIdx?_isLive_of_not_live fun a ha => hnot ⟨a, ha⟩] at hposition
    cases hposition
  obtain ⟨old, hold⟩ := hlive
  obtain ⟨found, hfound, hget⟩ := TombstoneMap.findIdx?_isLive_of_live hold
  rw [hfound, Option.some.injEq] at hposition
  subst hposition
  exact ⟨old, hold, hget⟩

/-- The records a replacement writes fit whatever the old ones fitted. -/
theorem LoadedFrom.exists_rewritten_set {records : List PendingRecord} {loaded : LoadedVault}
    {pending : PendingRecord} {tableNonce : Nonce} (h : LoadedFrom v records bytes loaded)
    (hstored : Stored v m bytes)
    (hrecords : List.Forall₂ (RecordFor v) records m.entries)
    (hdraw : draws.tableNonce = some tableNonce)
    (hlen : pending.frameBytes.length < 2 ^ 32) (hkind : AdmissibleKind pending.recordKind)
    (position : Nat) :
    ∃ out, rewrittenVault platform draws session loaded (records.set position pending)
      = .ok out := by
  refine h.sections.exists_rewritten hdraw ?_ ?_ ?_
  · intro record hmem
    rcases List.mem_or_eq_of_mem_set hmem with hmem | rfl
    · exact h.frame_lt record hmem
    · exact hlen
  · intro record hmem
    rcases List.mem_or_eq_of_mem_set hmem with hmem | rfl
    · exact admissible_of_recordFor hrecords record hmem
    · exact hkind
  · rw [List.length_set, hrecords.length_eq]
    exact hstored.size_le

/-- What a successful `update` plans: the live item replaced. -/
theorem Stored.of_planUpdate {id : ItemId} {item : PlainItem} {plan : Plan Unit}
    (h : Stored v m bytes) (hkeys : session.keys = v.keys)
    (hplan : planUpdate platform draws session id item bytes = .ok plan) :
    ∃ seed out, plan = ⟨(), some (out, seed)⟩ ∧ draws.uniqueSeed = some seed
      ∧ (∃ old, m.status id = some (some old)) ∧ storedFrameLen (some item) < 2 ^ 32
      ∧ draws.ForItem ∧ Stored v (m.assign id (some item)) out := by
  obtain ⟨records, loaded, hload, hloaded, hrecords, hentries⟩ := h.load hkeys
  simp only [planUpdate, freshId, bind_eq_ok, okOr_eq_ok, hload, Except.ok.injEq] at hplan
  obtain ⟨_, rfl, position, hposition, revisionId, hrevision, frameBytes, hframe, staged, hstaged,
    hplan⟩ := hplan
  obtain ⟨old, hold, hget⟩ := live_of_position hentries hposition
  have hlt : position < records.length := by
    rw [hrecords.length_eq]
    exact (List.getElem?_eq_some_iff.mp hget).1
  rw [hloaded.stageRecords_set _ hlt, Except.ok.injEq] at hstaged
  subst hstaged
  obtain ⟨out, seed, hwrite, hseed, rfl⟩ := planRewrite_eq_ok.mp hplan
  rw [hkeys, hloaded.header_eq] at hframe
  obtain ⟨hholds, hrek, hpayload, hwrap, hnonce⟩ := holds_of_buildItemFrame hframe
  obtain ⟨htable, -, hlens⟩ := of_rewrittenVault hwrite
  have hlen := hlens _ (List.mem_set hlt _)
  rw [hholds.length_eq] at hlen
  exact ⟨seed, out, rfl, hseed, ⟨old, hold⟩, hlen,
    ⟨⟨by rw [hrevision]; rfl, hnonce, htable, by rw [hseed]; rfl⟩, hrek, hpayload, hwrap⟩,
    hloaded.stored_of_set hkeys hrecords hget ⟨rfl, hholds⟩ hwrite⟩

/-- An `update` of a live item that fits succeeds when everything is drawn. -/
theorem Stored.exists_planUpdate {id : ItemId} {item old : PlainItem} (h : Stored v m bytes)
    (hkeys : session.keys = v.keys) (hdraws : draws.ForItem)
    (hlen : storedFrameLen (some item) < 2 ^ 32) (hlive : m.status id = some (some old)) :
    ∃ plan, planUpdate platform draws session id item bytes = .ok plan := by
  obtain ⟨records, loaded, hload, hloaded, hrecords, hentries⟩ := h.load hkeys
  obtain ⟨revisionId, hrevision⟩ := Option.isSome_iff_exists.mp hdraws.revisionId
  obtain ⟨rek, hrek⟩ := Option.isSome_iff_exists.mp hdraws.rek
  obtain ⟨payloadNonce, hpayload⟩ := Option.isSome_iff_exists.mp hdraws.payloadNonce
  obtain ⟨wrapNonce, hwrap⟩ := Option.isSome_iff_exists.mp hdraws.rekWrapNonce
  obtain ⟨frameNonce, hnonce⟩ := Option.isSome_iff_exists.mp hdraws.frameNonce
  obtain ⟨tableNonce, htable⟩ := Option.isSome_iff_exists.mp hdraws.tableNonce
  obtain ⟨seed, hseed⟩ := Option.isSome_iff_exists.mp hdraws.uniqueSeed
  obtain ⟨frameBytes, hframe⟩ : ∃ x, buildItemFrame platform draws item v.keys.itemWrapKey
      v.header id revisionId = .ok x :=
    exists_buildItemFrame id revisionId hrek hpayload hwrap hnonce hlen
  have hholds := (holds_of_buildItemFrame hframe).1
  obtain ⟨position, hfound, hget⟩ := TombstoneMap.findIdx?_isLive_of_live hlive
  have hlt : position < records.length := by
    rw [hrecords.length_eq]
    exact (List.getElem?_eq_some_iff.mp hget).1
  obtain ⟨out, hwrite⟩ := hloaded.exists_rewritten_set h hrecords htable
    (by rw [hholds.length_eq]; exact hlen) hholds.admissible position
  refine ⟨⟨(), some (out, seed)⟩, ?_⟩
  simp only [planUpdate, freshId, hload, ok_bind, liveItemPosition_eq hentries, hfound, hrevision,
    okOr_some, hkeys, hloaded.header_eq, hframe, hloaded.stageRecords_set _ hlt]
  exact planRewrite_eq_ok.mpr ⟨out, seed, hwrite, hseed, rfl⟩

/-- `update` of an id that is not live. -/
theorem Stored.planUpdate_of_not_live {id : ItemId} {item : PlainItem} (h : Stored v m bytes)
    (hkeys : session.keys = v.keys) (hlive : ∀ old, m.status id ≠ some (some old)) :
    planUpdate platform draws session id item bytes = .error (.notFound (idHex id)) := by
  obtain ⟨records, loaded, hload, hloaded, hrecords, hentries⟩ := h.load hkeys
  simp only [planUpdate, hload, ok_bind, liveItemPosition_eq hentries,
    TombstoneMap.findIdx?_isLive_of_not_live hlive]
  rfl

/-- What a successful `delete` of a live id plans: a tombstone in its place. -/
theorem Stored.of_planDelete {id : ItemId} {old : PlainItem} {plan : Plan Unit}
    (h : Stored v m bytes) (hkeys : session.keys = v.keys) (hlive : m.status id = some (some old))
    (hplan : planDelete platform draws session id bytes = .ok plan) :
    ∃ seed out, plan = ⟨(), some (out, seed)⟩ ∧ draws.uniqueSeed = some seed
      ∧ draws.ForFrame ∧ Stored v (m.assign id none) out := by
  obtain ⟨records, loaded, hload, hloaded, hrecords, hentries⟩ := h.load hkeys
  obtain ⟨position, hfound, hget⟩ := TombstoneMap.findIdx?_isLive_of_live hlive
  have hlt : position < records.length := by
    rw [hrecords.length_eq]
    exact (List.getElem?_eq_some_iff.mp hget).1
  simp only [planDelete, hload, ok_bind, liveItemPosition_eq hentries, hfound, freshId, bind_eq_ok,
    okOr_eq_ok, hloaded.stageRecords_set _ hlt] at hplan
  obtain ⟨revisionId, hrevision, frameBytes, hframe, hplan⟩ := hplan
  obtain ⟨out, seed, hwrite, hseed, rfl⟩ := planRewrite_eq_ok.mp hplan
  obtain ⟨-, nonce, -, hnonce, -⟩ := buildRecordFrame_eq_ok.mp hframe
  exact ⟨seed, out, rfl, hseed, ⟨by rw [hrevision]; rfl, by rw [hnonce]; rfl,
    (of_rewrittenVault hwrite).1, by rw [hseed]; rfl⟩, hloaded.stored_of_set hkeys hrecords hget
    ⟨rfl, rfl, length_of_tombstoneFrame hframe⟩ hwrite⟩

/-- A `delete` of a live id succeeds when everything is drawn. -/
theorem Stored.exists_planDelete {id : ItemId} {old : PlainItem} (h : Stored v m bytes)
    (hkeys : session.keys = v.keys) (hdraws : draws.ForFrame)
    (hlive : m.status id = some (some old)) :
    ∃ plan, planDelete platform draws session id bytes = .ok plan := by
  obtain ⟨records, loaded, hload, hloaded, hrecords, hentries⟩ := h.load hkeys
  obtain ⟨revisionId, hrevision⟩ := Option.isSome_iff_exists.mp hdraws.revisionId
  obtain ⟨frameNonce, hnonce⟩ := Option.isSome_iff_exists.mp hdraws.frameNonce
  obtain ⟨tableNonce, htable⟩ := Option.isSome_iff_exists.mp hdraws.tableNonce
  obtain ⟨seed, hseed⟩ := Option.isSome_iff_exists.mp hdraws.uniqueSeed
  obtain ⟨frameBytes, hframe⟩ := exists_tombstoneFrame id revisionId
    (itemRecordAad v.header id revisionId recordKindTombstone) hnonce
  obtain ⟨position, hfound, hget⟩ := TombstoneMap.findIdx?_isLive_of_live hlive
  have hlt : position < records.length := by
    rw [hrecords.length_eq]
    exact (List.getElem?_eq_some_iff.mp hget).1
  have hlen := length_of_tombstoneFrame hframe
  obtain ⟨out, hwrite⟩ : ∃ out, rewrittenVault platform draws session loaded
      (records.set position ⟨id, recordKindTombstone, revisionId, frameBytes⟩) = .ok out :=
    hloaded.exists_rewritten_set h hrecords htable (by simp only [hlen]; decide)
      (by simp only; decide) position
  refine ⟨⟨(), some (out, seed)⟩, ?_⟩
  simp only [planDelete, freshId, hload, ok_bind, liveItemPosition_eq hentries, hfound, hrevision,
    okOr_some, hloaded.header_eq, hframe, hloaded.stageRecords_set _ hlt]
  exact planRewrite_eq_ok.mpr ⟨out, seed, hwrite, hseed, rfl⟩

/-- The tombstone test of `delete` finds the dead ids. -/
theorem any_tombstone_eq {loaded : LoadedVault} {id : ItemId}
    (h : List.Forall₂ (EntryStores v loaded.bytes) loaded.entries m.entries) :
    (loaded.entries.any fun entry =>
        entry.recordId = id ∧ entry.recordKind = recordKindTombstone)
      = decide (m.status id = some none) := by
  have hany : ∀ entry stored, EntryStores v loaded.bytes entry stored →
      (decide (entry.recordId = id ∧ entry.recordKind = recordKindTombstone) : Bool)
        = decide (stored.1 = id ∧ stored.2 = none) := by
    intro entry stored hstores
    rw [hstores.recordId_eq, hstores.recordKind_eq]
    have hkinds : recordKindItem ≠ recordKindTombstone := by decide
    cases hstored : stored.2 with
    | none => simp
    | some item => simp [hkinds]
  rw [h.any_eq hany]
  rw [Bool.eq_iff_iff, List.any_eq_true, decide_eq_true_eq, TombstoneMap.status_eq_some]
  constructor
  · rintro ⟨⟨j, content⟩, hmem, hdead⟩
    simp only [decide_eq_true_eq] at hdead
    obtain ⟨rfl, rfl⟩ := hdead
    exact hmem
  · intro hmem
    exact ⟨(id, none), hmem, by simp⟩

/-- `delete` of a deleted id plans nothing. -/
theorem Stored.planDelete_of_dead {id : ItemId} (h : Stored v m bytes)
    (hkeys : session.keys = v.keys) (hdead : m.status id = some none) :
    planDelete platform draws session id bytes = .ok ⟨(), none⟩ := by
  obtain ⟨records, loaded, hload, hloaded, hrecords, hentries⟩ := h.load hkeys
  have hlive : ∀ a, m.status id ≠ some (some a) := by
    intro a ha
    rw [hdead] at ha
    cases ha
  simp only [planDelete, hload, ok_bind, liveItemPosition_eq hentries,
    TombstoneMap.findIdx?_isLive_of_not_live hlive, any_tombstone_eq hentries, hdead]
  rfl

/-- `delete` of an id never added. -/
theorem Stored.planDelete_of_absent {id : ItemId} (h : Stored v m bytes)
    (hkeys : session.keys = v.keys) (habsent : m.status id = none) :
    planDelete platform draws session id bytes = .error (.notFound (idHex id)) := by
  obtain ⟨records, loaded, hload, hloaded, hrecords, hentries⟩ := h.load hkeys
  have hlive : ∀ a, m.status id ≠ some (some a) := by
    intro a ha
    rw [habsent] at ha
    cases ha
  simp only [planDelete, hload, ok_bind, liveItemPosition_eq hentries,
    TombstoneMap.findIdx?_isLive_of_not_live hlive, any_tombstone_eq hentries, habsent]
  rfl

-- ================================================================= reads

/-- Reading the entry of a live item. -/
theorem LoadedFrom.readItem_eq_ok {records : List PendingRecord} {loaded : LoadedVault}
    {entry : RecordTableEntry} {id : ItemId} {item : PlainItem} {decoded : DecodedItem}
    (h : LoadedFrom v records bytes loaded) (hkeys : session.keys = v.keys)
    (hstores : EntryStores v loaded.bytes entry (id, some item)) :
    readItem platform session loaded entry = .ok decoded
      ↔ item.WithinLimits ∧ decoded = item.view := by
  obtain ⟨record, hentry, hrecord⟩ := hstores
  exact readItem_of_holds hkeys h.header_eq hentry hrecord.2

/-- What `list` returns of a map. -/
def liveSummaries (m : ItemMap) : List ItemSummary :=
  m.live.map fun (id, item) => item.view.summary id

/-- Every live item can be read back. -/
def AllWithinLimits (m : ItemMap) : Prop := ∀ id item, (id, item) ∈ m.live → item.WithinLimits

/-- The loop of `list` succeeds exactly when every live item is within
the limits. -/
theorem LoadedFrom.summarizeEntries_eq_ok {records : List PendingRecord} {loaded : LoadedVault}
    {entries : List RecordTableEntry} {stored : List (ItemId × Option PlainItem)}
    {summaries : List ItemSummary} (h : LoadedFrom v records bytes loaded)
    (hkeys : session.keys = v.keys)
    (hentries : List.Forall₂ (EntryStores v loaded.bytes) entries stored) :
    summarizeEntries platform session loaded entries = .ok summaries
      ↔ (∀ id item, (id, some item) ∈ stored → item.WithinLimits)
        ∧ summaries = (stored.filterMap fun entry => entry.2.map fun item => (entry.1, item)).map
            fun (id, item) => item.view.summary id := by
  induction hentries generalizing summaries with
  | nil => simp [summarizeEntries, eq_comm]
  | @cons entry pair entries stored hstores _ ih =>
      obtain ⟨id, content⟩ := pair
      have hid := hstores.recordId_eq
      have hkind := hstores.recordKind_eq
      cases content with
      | none =>
          have hskip : entry.recordKind ≠ recordKindItem := by
            rw [hkind]
            show recordKindTombstone ≠ recordKindItem
            decide
          rw [summarizeEntries, if_pos hskip, ih]
          simp
      | some item =>
          have hitem : ¬ entry.recordKind ≠ recordKindItem := by
            rw [hkind]
            show ¬ recordKindItem ≠ recordKindItem
            decide
          rw [summarizeEntries, if_neg hitem]
          simp only [bind_eq_ok, h.readItem_eq_ok hkeys hstores, ih, pure_eq_ok, Except.ok.injEq,
            List.mem_cons, Prod.mk.injEq, Option.some.injEq, List.filterMap_cons, Option.map_some,
            List.map_cons, hid]
          constructor
          · rintro ⟨_, ⟨hlimits, rfl⟩, _, ⟨hall, rfl⟩, rfl⟩
            refine ⟨?_, rfl⟩
            rintro j other (⟨-, rfl⟩ | hmem)
            · exact hlimits
            · exact hall j other hmem
          · rintro ⟨hall, rfl⟩
            exact ⟨_, ⟨hall id item (.inl ⟨rfl, rfl⟩), rfl⟩, _,
              ⟨fun j other hmem => hall j other (.inr hmem), rfl⟩, rfl⟩

/-- The same, asked of the entries. -/
theorem allWithinLimits_iff :
    AllWithinLimits m ↔ ∀ id item, (id, some item) ∈ m.entries → item.WithinLimits := by
  simp only [AllWithinLimits, TombstoneMap.mem_live, TombstoneMap.status_eq_some]

/-- `list` after its file read. -/
theorem LoadedFrom.summarize_eq_ok {records : List PendingRecord} {loaded : LoadedVault}
    {summaries : List ItemSummary} (h : LoadedFrom v records bytes loaded)
    (hkeys : session.keys = v.keys)
    (hentries : List.Forall₂ (EntryStores v loaded.bytes) loaded.entries m.entries) :
    summarizeEntries platform session loaded loaded.entries = .ok summaries
      ↔ AllWithinLimits m ∧ summaries = liveSummaries m := by
  rw [h.summarizeEntries_eq_ok hkeys hentries, allWithinLimits_iff]
  rfl

/-- The lookup of `with_item` is the map's. -/
theorem LoadedFrom.viewItem_eq_ok {records : List PendingRecord} {loaded : LoadedVault}
    {id : ItemId} {decoded : DecodedItem} (h : LoadedFrom v records bytes loaded)
    (hkeys : session.keys = v.keys)
    (hentries : List.Forall₂ (EntryStores v loaded.bytes) loaded.entries m.entries) :
    viewItem platform session loaded id = .ok decoded
      ↔ ∃ item, m.status id = some (some item) ∧ item.WithinLimits ∧ decoded = item.view := by
  cases hposition : liveItemPosition loaded id with
  | none =>
      have hnone : (loaded.entries.find? fun entry =>
          entry.recordId = id ∧ entry.recordKind = recordKindItem) = none := by
        rw [List.find?_eq_bind_findIdx?_getElem?, ← liveItemPosition, hposition]
        rfl
      simp only [viewItem, hnone, bind_eq_ok, okOr_eq_ok]
      constructor
      · rintro ⟨_, hcontra, -⟩
        cases hcontra
      · rintro ⟨item, hlive, -⟩
        obtain ⟨found, hfound, -⟩ := TombstoneMap.findIdx?_isLive_of_live hlive
        rw [liveItemPosition_eq hentries, hfound] at hposition
        cases hposition
  | some position =>
      obtain ⟨old, hlive, hget⟩ := Stored.live_of_position hentries hposition
      obtain ⟨entry, hentry, hstores⟩ := hentries.exists_of_getElem? hget
      have hfind : (loaded.entries.find? fun entry =>
          entry.recordId = id ∧ entry.recordKind = recordKindItem) = some entry := by
        rw [List.find?_of_findIdx? hposition, hentry]
      simp only [viewItem, hfind, okOr_some, ok_bind, h.readItem_eq_ok hkeys hstores, hlive,
        Option.some.injEq]
      constructor
      · rintro ⟨hlimits, rfl⟩
        exact ⟨old, rfl, hlimits, rfl⟩
      · rintro ⟨_, rfl, hlimits, rfl⟩
        exact ⟨hlimits, rfl⟩

/-- `with_item` on an id that is not live. -/
theorem LoadedFrom.viewItem_of_not_live {loaded : LoadedVault} {id : ItemId}
    (hentries : List.Forall₂ (EntryStores v loaded.bytes) loaded.entries m.entries)
    (hlive : ∀ a, m.status id ≠ some (some a)) :
    viewItem platform session loaded id = .error (.notFound (idHex id)) := by
  have hnone : (loaded.entries.find? fun entry =>
      entry.recordId = id ∧ entry.recordKind = recordKindItem) = none := by
    rw [List.find?_eq_bind_findIdx?_getElem?, ← liveItemPosition, liveItemPosition_eq hentries,
      TombstoneMap.findIdx?_isLive_of_not_live hlive]
    rfl
  simp only [viewItem, hnone]
  rfl

end MeissnerSeal
