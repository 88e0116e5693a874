/-
What a mutation writes, over whatever file it has read.

# Inversion

A mutation that writes has built one record (`Mutation.Builds`), put it in
its place among the records of the file (`Mutation.place`) and rewritten
the file over them (`Mutation.plan_writes_iff`). Where the file came from
plays no part: that it loads is enough. Whether a call writes is decided
by its draws, the size of its item and the table it has loaded
(`Mutation.exists_plan_iff`).
-/
import MeissnerSeal.Item.Calls

namespace MeissnerSeal

open ByteCodec ExceptRules

variable {platform : Platform} {draws : Draws} {session : UnlockedVault} {bytes out : Bytes}
  {loaded : LoadedVault} {records : List PendingRecord} {call : Mutation} {header : VaultHeader}

-- ============================================================ the new record

/-- A record with the frame of an item. -/
structure PendingRecord.HoldsItem (platform : Platform) (draws : Draws) (itemWrapKey : Key)
    (header : VaultHeader) (item : PlainItem) (pending : PendingRecord) : Prop where
  recordKind : pending.recordKind = recordKindItem
  revisionId : draws.revisionId = some pending.revisionId
  frameBytes : buildItemFrame platform draws item itemWrapKey header pending.recordId
    pending.revisionId = .ok pending.frameBytes

/-- A record with the frame of a deleted item. -/
structure PendingRecord.HoldsTombstone (draws : Draws) (header : VaultHeader)
    (pending : PendingRecord) : Prop where
  recordKind : pending.recordKind = recordKindTombstone
  revisionId : draws.revisionId = some pending.revisionId
  frameBytes : buildRecordFrame draws pending.recordId pending.revisionId []
    (itemRecordAad header pending.recordId pending.revisionId recordKindTombstone)
      = .ok pending.frameBytes

/-- The record a call builds under a header. -/
def Mutation.Builds (platform : Platform) (draws : Draws) (session : UnlockedVault)
    (header : VaultHeader) : Mutation → PendingRecord → Prop
  | .add item, pending => draws.recordId = some pending.recordId
      ∧ pending.HoldsItem platform draws session.keys.itemWrapKey header item
  | .update id item, pending => pending.recordId = id
      ∧ pending.HoldsItem platform draws session.keys.itemWrapKey header item
  | .delete id, pending => pending.recordId = id ∧ pending.HoldsTombstone draws header

/-- What the call stores, and how long its frame is. -/
def Mutation.content : Mutation → Option PlainItem
  | .add item => some item
  | .update _ item => some item
  | .delete _ => none

/-- The records with the new one in its place; `none` when there is no
item to replace. -/
def Mutation.place {α : Type} (loaded : LoadedVault) (records : List α) (pending : α) :
    Mutation → Option (List α)
  | .add _ => some (records ++ [pending])
  | .update id _ => (liveItemPosition loaded id).map fun position => records.set position pending
  | .delete id => (liveItemPosition loaded id).map fun position => records.set position pending

/-- A frame is as long as its item says. -/
theorem PendingRecord.HoldsItem.length_eq {itemWrapKey : Key} {item : PlainItem}
    {pending : PendingRecord}
    (h : pending.HoldsItem platform draws itemWrapKey header item) :
    pending.frameBytes.length = storedFrameLen (some item) := by
  obtain ⟨-, -, -, -, -, -, -, -, -, -, -, -, -, -, -, -, -, -, -, hlen⟩ :=
    of_buildItemFrame h.frameBytes
  exact hlen

/-- The record a call builds is as long as what it stores. -/
theorem Mutation.Builds.length_eq {pending : PendingRecord}
    (h : call.Builds platform draws session header pending) :
    pending.frameBytes.length = storedFrameLen call.content := by
  cases call with
  | add item => exact h.2.length_eq
  | update id item => exact h.2.length_eq
  | delete id => exact length_of_tombstoneFrame h.2.frameBytes

/-- What a mutation builds is of a kind the table lists. -/
theorem Mutation.Builds.admissible {pending : PendingRecord}
    (h : call.Builds platform draws session header pending) :
    AdmissibleKind pending.recordKind := by
  cases call with
  | add item => exact h.2.recordKind ▸ (by decide)
  | update id item => exact h.2.recordKind ▸ (by decide)
  | delete id => exact h.2.recordKind ▸ (by decide)

/-- A record is built from drawn values only. -/
theorem Mutation.Builds.drawn {pending : PendingRecord}
    (h : call.Builds platform draws session header pending) (htable : draws.tableNonce.isSome)
    (hseed : draws.uniqueSeed.isSome) : call.Drawn draws := by
  have hitem : ∀ item, pending.HoldsItem platform draws session.keys.itemWrapKey header item →
      draws.ForItem := by
    intro item hholds
    obtain ⟨_, _, _, _, _, _, _, _, _, hrek, hpayload, hwrap, hnonce, -⟩ :=
      of_buildItemFrame hholds.frameBytes
    exact ⟨⟨by rw [hholds.revisionId]; rfl, by rw [hnonce]; rfl, htable, hseed⟩, by rw [hrek]; rfl,
      by rw [hpayload]; rfl, by rw [hwrap]; rfl⟩
  cases call with
  | add item => exact ⟨hitem item h.2, by rw [h.1]; rfl⟩
  | update id item => exact hitem item h.2
  | delete id =>
      obtain ⟨-, nonce, -, hnonce, -⟩ := buildRecordFrame_eq_ok.mp h.2.frameBytes
      exact ⟨by rw [h.2.revisionId]; rfl, by rw [hnonce]; rfl, htable, hseed⟩

/-- A record is built when its values are drawn and it fits a `u32`. -/
theorem Mutation.exists_builds (session : UnlockedVault) (header : VaultHeader)
    (hdrawn : call.Drawn draws) (hlen : storedFrameLen call.content < 2 ^ 32) :
    ∃ pending, call.Builds platform draws session header pending := by
  have hitem : ∀ (recordId : U8Array 16) (item : PlainItem), draws.ForItem →
      storedFrameLen (some item) < 2 ^ 32 → ∃ pending : PendingRecord, pending.recordId = recordId
        ∧ pending.HoldsItem platform draws session.keys.itemWrapKey header item := by
    intro recordId item hdraws hlen
    obtain ⟨revisionId, hrevision⟩ := Option.isSome_iff_exists.mp hdraws.revisionId
    obtain ⟨rek, hrek⟩ := Option.isSome_iff_exists.mp hdraws.rek
    obtain ⟨payloadNonce, hpayload⟩ := Option.isSome_iff_exists.mp hdraws.payloadNonce
    obtain ⟨wrapNonce, hwrap⟩ := Option.isSome_iff_exists.mp hdraws.rekWrapNonce
    obtain ⟨frameNonce, hnonce⟩ := Option.isSome_iff_exists.mp hdraws.frameNonce
    obtain ⟨frameBytes, hframe⟩ : ∃ x, buildItemFrame platform draws item session.keys.itemWrapKey
        header recordId revisionId = .ok x :=
      exists_buildItemFrame recordId revisionId hrek hpayload hwrap hnonce hlen
    exact ⟨⟨recordId, recordKindItem, revisionId, frameBytes⟩, rfl, rfl, hrevision, hframe⟩
  cases call with
  | add item =>
      obtain ⟨recordId, hid⟩ := Option.isSome_iff_exists.mp hdrawn.recordId
      obtain ⟨pending, rfl, hholds⟩ := hitem recordId item hdrawn.toForItem hlen
      exact ⟨pending, hid, hholds⟩
  | update id item =>
      obtain ⟨pending, hid, hholds⟩ := hitem id item hdrawn hlen
      exact ⟨pending, hid, hholds⟩
  | delete id =>
      obtain ⟨revisionId, hrevision⟩ := Option.isSome_iff_exists.mp hdrawn.revisionId
      obtain ⟨frameNonce, hnonce⟩ := Option.isSome_iff_exists.mp hdrawn.frameNonce
      obtain ⟨frameBytes, hframe⟩ := exists_tombstoneFrame id revisionId
        (itemRecordAad header id revisionId recordKindTombstone) hnonce
      exact ⟨⟨id, recordKindTombstone, revisionId, frameBytes⟩, rfl, rfl, hrevision, hframe⟩

-- ================================================================= the plan

/-- A plan to write is a rewrite. -/
theorem Mutation.rewritten_of_plan {draws : Draws} {value : Option ItemId} {out : Bytes}
    {seed : U8Array 16}
    (hplan : call.plan platform draws session bytes = .ok ⟨value, some (out, seed)⟩) :
    ∃ loaded records, loadVaultBytes platform session bytes = .ok loaded
      ∧ rewrittenVault platform draws session loaded records = .ok out := by
  cases call with
  | add item =>
      simp only [Mutation.plan, planAdd, bind_eq_ok, planRewrite_eq_ok, pure_eq_ok,
        Except.ok.injEq, Plan.mk.injEq] at hplan
      obtain ⟨_, ⟨loaded, hload, _, -, _, -, _, -, records, -, out', seed', hwrite, -, rfl⟩, -,
        hout⟩ := hplan
      simp only [Option.some.injEq, Prod.mk.injEq] at hout
      obtain ⟨rfl, -⟩ := hout
      exact ⟨loaded, records, hload, hwrite⟩
  | update id item =>
      simp only [Mutation.plan, planUpdate, bind_eq_ok, planRewrite_eq_ok, pure_eq_ok,
        Except.ok.injEq, Plan.mk.injEq] at hplan
      obtain ⟨_, ⟨loaded, hload, _, -, _, -, _, -, records, -, out', seed', hwrite, -, rfl⟩, -,
        hout⟩ := hplan
      simp only [Option.some.injEq, Prod.mk.injEq] at hout
      obtain ⟨rfl, -⟩ := hout
      exact ⟨loaded, records, hload, hwrite⟩
  | delete id =>
      simp only [Mutation.plan, planDelete, bind_eq_ok] at hplan
      obtain ⟨planned, ⟨loaded, hload, hrest⟩, hpure⟩ := hplan
      rw [pure_eq_ok, Except.ok.injEq, Plan.mk.injEq] at hpure
      split at hrest
      · split at hrest
        · rw [pure_eq_ok, Except.ok.injEq] at hrest
          rw [← hrest] at hpure
          cases hpure.2
        · cases hrest
      · simp only [bind_eq_ok, planRewrite_eq_ok] at hrest
        obtain ⟨_, -, _, -, records, -, out', seed', hwrite, -, rfl⟩ := hrest
        simp only [Option.some.injEq, Prod.mk.injEq] at hpure
        obtain ⟨-, rfl, -⟩ := hpure
        exact ⟨loaded, records, hload, hwrite⟩

/-- Only a `delete` of a deleted item plans no write. -/
theorem Mutation.of_plan_none {value : Option ItemId}
    (hplan : call.plan platform draws session bytes = .ok ⟨value, none⟩) :
    ∃ id loaded, call = .delete id ∧ loadVaultBytes platform session bytes = .ok loaded
      ∧ liveItemPosition loaded id = none
      ∧ (loaded.entries.any fun entry =>
          entry.recordId = id ∧ entry.recordKind = recordKindTombstone) = true := by
  cases call with
  | add item =>
      simp only [Mutation.plan, planAdd, bind_eq_ok, planRewrite_eq_ok, pure_eq_ok,
        Except.ok.injEq, Plan.mk.injEq] at hplan
      obtain ⟨_, ⟨_, -, _, -, _, -, _, -, _, -, _, _, -, -, rfl⟩, -, hout⟩ := hplan
      cases hout
  | update id item =>
      simp only [Mutation.plan, planUpdate, bind_eq_ok, planRewrite_eq_ok, pure_eq_ok,
        Except.ok.injEq, Plan.mk.injEq] at hplan
      obtain ⟨_, ⟨_, -, _, -, _, -, _, -, _, -, _, _, -, -, rfl⟩, -, hout⟩ := hplan
      cases hout
  | delete id =>
      simp only [Mutation.plan, planDelete, bind_eq_ok] at hplan
      obtain ⟨planned, ⟨loaded, hload, hrest⟩, hpure⟩ := hplan
      rw [pure_eq_ok, Except.ok.injEq, Plan.mk.injEq] at hpure
      cases hposition : liveItemPosition loaded id with
      | none =>
          simp only [hposition] at hrest
          split at hrest
          · exact ⟨id, loaded, rfl, hload, hposition, by assumption⟩
          · cases hrest
      | some position =>
          simp only [hposition, bind_eq_ok, planRewrite_eq_ok] at hrest
          obtain ⟨_, -, _, -, _, -, _, _, -, -, rfl⟩ := hrest
          cases hpure.2

/-- A position found is one of the entries. -/
theorem liveItemPosition_lt {id : ItemId} {position : Nat}
    (h : liveItemPosition loaded id = some position) : position < loaded.entries.length := by
  rw [liveItemPosition, List.findIdx?_eq_some_iff_getElem] at h
  exact h.1

/-- A file that loads can be addressed. -/
theorem length_le_of_load (h : loadVaultBytes platform session bytes = .ok loaded) :
    loaded.bytes.length ≤ usizeMax := by
  simp only [loadVaultBytes, loadVaultBytesWith, bind_eq_ok, pure_eq_ok, Except.ok.injEq] at h
  obtain ⟨header, hheader, _, -, _, -, _, -, _, -, _, -, _, -, rfl⟩ := h
  exact length_le_of_parseHeader hheader

/-- A mutation that writes builds its record, places it and
rewrites the file. -/
theorem Mutation.plan_writes_iff {value : Option ItemId} {seed : U8Array 16}
    (hload : loadVaultBytes platform session bytes = .ok loaded)
    (hrecords : List.Forall₂ (EntryFor loaded.bytes) loaded.entries records) :
    call.plan platform draws session bytes = .ok ⟨value, some (out, seed)⟩
      ↔ value = call.reply draws ∧ draws.uniqueSeed = some seed
        ∧ ∃ pending staged, call.Builds platform draws session loaded.header pending
          ∧ call.place loaded records pending = some staged
          ∧ rewrittenVault platform draws session loaded staged = .ok out := by
  have hset : ∀ {id : ItemId} {position : Nat} (pending : PendingRecord),
      liveItemPosition loaded id = some position →
      stageRecords loaded (some position) (some pending) = .ok (records.set position pending) := by
    intro id position pending hposition
    refine stageRecords_set hrecords (length_le_of_load hload) pending ?_
    rw [← hrecords.length_eq]
    exact liveItemPosition_lt hposition
  cases call with
  | add item =>
      simp only [Mutation.plan, planAdd, freshId, hload, ok_bind,
        stageRecords_append hrecords (length_le_of_load hload), bind_eq_ok, okOr_eq_ok,
        planRewrite_eq_ok, pure_eq_ok, Except.ok.injEq, Plan.mk.injEq, Mutation.reply,
        Mutation.Builds, Mutation.place, Option.some.injEq]
      constructor
      · rintro ⟨_, ⟨recordId, hid, revisionId, hrevision, frameBytes, hframe, out', seed', hwrite,
          hseed, rfl⟩, rfl, hout⟩
        obtain ⟨rfl, rfl⟩ := Prod.mk.inj (Option.some.inj hout)
        exact ⟨hid.symm, hseed, ⟨recordId, recordKindItem, revisionId, frameBytes⟩, _,
          ⟨hid, rfl, hrevision, hframe⟩, rfl, hwrite⟩
      · rintro ⟨rfl, hseed, ⟨recordId, kind, revisionId, frameBytes⟩, _,
          ⟨hid, rfl, hrevision, hframe⟩, rfl, hwrite⟩
        exact ⟨_, ⟨recordId, hid, revisionId, hrevision, frameBytes, hframe, out, seed,
          hwrite, hseed, rfl⟩, hid.symm, rfl⟩
  | update id item =>
      simp only [Mutation.plan, planUpdate, freshId, hload, ok_bind, bind_eq_ok, okOr_eq_ok,
        planRewrite_eq_ok, pure_eq_ok, Except.ok.injEq, Plan.mk.injEq, Mutation.reply,
          Mutation.Builds,
        Mutation.place, Option.map_eq_some_iff]
      constructor
      · rintro ⟨_, ⟨position, hposition, revisionId, hrevision, frameBytes, hframe, staged, hstaged,
          out', seed', hwrite, hseed, rfl⟩, rfl, hout⟩
        obtain ⟨rfl, rfl⟩ := Prod.mk.inj (Option.some.inj hout)
        rw [hset _ hposition, Except.ok.injEq] at hstaged
        exact ⟨rfl, hseed, ⟨id, recordKindItem, revisionId, frameBytes⟩, staged,
          ⟨rfl, rfl, hrevision, hframe⟩, ⟨position, hposition, hstaged⟩, hwrite⟩
      · rintro ⟨rfl, hseed, ⟨recordId, kind, revisionId, frameBytes⟩, _,
          ⟨rfl, rfl, hrevision, hframe⟩, ⟨position, hposition, rfl⟩, hwrite⟩
        exact ⟨_, ⟨position, hposition, revisionId, hrevision, frameBytes, hframe, _,
          hset _ hposition, out, seed, hwrite, hseed, rfl⟩, rfl, rfl⟩
  -- a `delete` that finds no live item writes nothing
  | delete id =>
      simp only [Mutation.plan, planDelete, freshId, hload, ok_bind, Mutation.reply,
        Mutation.Builds, Mutation.place]
      cases hposition : liveItemPosition loaded id with
      | none =>
          simp only [Option.map_none, reduceCtorEq, false_and, and_false, exists_false, iff_false]
          split
          · simp
          · simp
      | some position =>
          simp only [bind_eq_ok, okOr_eq_ok, planRewrite_eq_ok, pure_eq_ok, Except.ok.injEq,
            Plan.mk.injEq, hset _ hposition, Option.map_some, Option.some.injEq]
          constructor
          · rintro ⟨_, ⟨revisionId, hrevision, frameBytes, hframe, staged, rfl, out', seed', hwrite,
              hseed, rfl⟩, rfl, hout⟩
            obtain ⟨rfl, rfl⟩ := Prod.mk.inj (Option.some.inj hout)
            exact ⟨rfl, hseed, ⟨id, recordKindTombstone, revisionId, frameBytes⟩, _,
              ⟨rfl, rfl, hrevision, hframe⟩, rfl, hwrite⟩
          · rintro ⟨rfl, hseed, ⟨recordId, kind, revisionId, frameBytes⟩, _,
              ⟨rfl, rfl, hrevision, hframe⟩, rfl, hwrite⟩
            exact ⟨_, ⟨revisionId, hrevision, frameBytes, hframe, _, rfl, out, seed, hwrite, hseed,
              rfl⟩, rfl, rfl⟩

-- ============================================================ what decides it

section Place

variable {α β : Type} {items staged : List α} {pending : α}

/-- Where a record goes does not depend on what it holds. -/
theorem Mutation.place_map (f : α → β) :
    call.place loaded (items.map f) (f pending) = (call.place loaded items pending).map
      (List.map f) := by
  have hset : ∀ id, ((liveItemPosition loaded id).map fun position =>
      (items.map f).set position (f pending))
        = ((liveItemPosition loaded id).map fun position => items.set position pending).map
            (List.map f) := by
    intro id
    cases liveItemPosition loaded id with
    | none => rfl
    | some position => simp only [Option.map_some, List.map_set]
  cases call with
  | add item => simp only [place, Option.map_some, List.map_append, List.map_cons, List.map_nil]
  | update id item => exact hset id
  | delete id => exact hset id

/-- What stands in the table after a call stood there before, or is the
new record. -/
theorem Mutation.mem_of_place (h : call.place loaded items pending = some staged) :
    ∀ item ∈ staged, item ∈ items ∨ item = pending := by
  have hset : ∀ id, ((liveItemPosition loaded id).map fun position => items.set position pending)
      = some staged → ∀ item ∈ staged, item ∈ items ∨ item = pending := by
    intro id h
    obtain ⟨position, -, rfl⟩ := Option.map_eq_some_iff.mp h
    exact fun item hmem => List.mem_or_eq_of_mem_set hmem
  cases call with
  | add item =>
      obtain rfl := Option.some.inj h
      intro item hmem
      rcases List.mem_append.mp hmem with hold | hnew
      · exact .inl hold
      · exact .inr (List.mem_singleton.mp hnew)
  | update id item => exact hset id h
  | delete id => exact hset id h

/-- The new record stands in the table. -/
theorem Mutation.pending_mem_of_place (h : call.place loaded items pending = some staged)
    (hlen : loaded.entries.length = items.length) : pending ∈ staged := by
  have hset : ∀ id, ((liveItemPosition loaded id).map fun position => items.set position pending)
      = some staged → pending ∈ staged := by
    intro id h
    obtain ⟨position, hposition, rfl⟩ := Option.map_eq_some_iff.mp h
    exact List.mem_set (hlen ▸ liveItemPosition_lt hposition) pending
  cases call with
  | add item =>
      obtain rfl := Option.some.inj h
      exact List.mem_append_right _ (List.mem_singleton_self pending)
  | update id item => exact hset id h
  | delete id => exact hset id h

end Place

/-- The frame lengths of the file a call would write; `none` when there is
no item to replace. -/
def Mutation.frameLens (loaded : LoadedVault) (call : Mutation) : Option (List Nat) :=
  call.place loaded (loaded.entries.map fun entry => entry.frameLen.toNat)
    (storedFrameLen call.content)

/-- The call has something to write over the table it has loaded, and can. -/
def Mutation.Writes (draws : Draws) (loaded : LoadedVault) (call : Mutation) : Prop :=
  call.Drawn draws ∧ storedFrameLen call.content < 2 ^ 32
    ∧ ∃ lens, call.frameLens loaded = some lens ∧ lens.length ≤ maxRecords

/-- The lengths in the entries are those of the frames. -/
theorem map_frameLen (h : List.Forall₂ (EntryFor bytes) loaded.entries records) :
    (loaded.entries.map fun entry => entry.frameLen.toNat)
      = records.map fun record => record.frameBytes.length := by
  generalize loaded.entries = entries at h
  induction h with
  | nil => rfl
  | cons hentry _ ih => rw [List.map_cons, List.map_cons, ih, hentry.frameLen]

/-- The frame lengths are those of the records the call stages. -/
theorem Mutation.Builds.frameLens_eq {pending : PendingRecord}
    (h : call.Builds platform draws session header pending)
    (hrecords : List.Forall₂ (EntryFor loaded.bytes) loaded.entries records) :
    call.frameLens loaded = (call.place loaded records pending).map
      (List.map fun record => record.frameBytes.length) := by
  rw [Mutation.frameLens, map_frameLen hrecords, ← h.length_eq]
  exact Mutation.place_map fun record : PendingRecord => record.frameBytes.length

/-- Whether a call writes is a matter of its draws, its item and the table
it has loaded. -/
theorem Mutation.exists_plan_iff {headerBytes wrkBytes : Bytes}
    (hload : loadVaultBytes platform session bytes = .ok loaded)
    (hsections : loaded.Sections headerBytes wrkBytes)
    (hrecords : List.Forall₂ (EntryFor loaded.bytes) loaded.entries records)
    (hkinds : ∀ record ∈ records, AdmissibleKind record.recordKind) :
    (∃ value out seed, call.plan platform draws session bytes = .ok ⟨value, some (out, seed)⟩)
      ↔ call.Writes draws loaded := by
  simp only [Mutation.plan_writes_iff hload hrecords]
  constructor
  · rintro ⟨_, out, seed, rfl, hseed, pending, staged, hbuilds, hplace, hwrite⟩
    -- what was written shows what the call had to draw and how long all is
    obtain ⟨htable, hcount, hlens⟩ := of_rewrittenVault hwrite
    have hlen := hlens _ (pending_mem_of_place hplace hrecords.length_eq)
    rw [hbuilds.length_eq] at hlen
    refine ⟨hbuilds.drawn htable (by rw [hseed]; rfl), hlen, staged.map fun record =>
      record.frameBytes.length, ?_, ?_⟩
    · rw [hbuilds.frameLens_eq hrecords, hplace]
      rfl
    · rw [List.length_map]
      exact hcount
  · rintro ⟨hdrawn, hlen, lens, hframeLens, hcount⟩
    -- and with these the record can be built, placed and written
    obtain ⟨pending, hbuilds⟩ : ∃ pending,
      call.Builds platform draws session loaded.header pending :=
      Mutation.exists_builds session loaded.header hdrawn hlen
    rw [hbuilds.frameLens_eq hrecords, Option.map_eq_some_iff] at hframeLens
    obtain ⟨staged, hplace, rfl⟩ := hframeLens
    rw [List.length_map] at hcount
    have hframe : draws.ForFrame := by
      cases call with
      | add item => exact hdrawn.toForFrame
      | update id item => exact hdrawn.toForFrame
      | delete id => exact hdrawn
    obtain ⟨tableNonce, htable⟩ := Option.isSome_iff_exists.mp hframe.tableNonce
    obtain ⟨seed, hseed⟩ := Option.isSome_iff_exists.mp hframe.uniqueSeed
    have hmem := mem_of_place hplace
    obtain ⟨out, hwrite⟩ : ∃ out, rewrittenVault platform draws session loaded staged
      = .ok out := by
      refine hsections.exists_rewritten htable (fun record hrecord => ?_) (fun record hrecord => ?_)
        hcount
      · rcases hmem record hrecord with hold | rfl
        · have hlens : record.frameBytes.length ∈ loaded.entries.map fun entry =>
              entry.frameLen.toNat := by
            rw [map_frameLen hrecords]
            exact List.mem_map_of_mem hold
          obtain ⟨entry, -, heq⟩ := List.mem_map.mp hlens
          rw [← heq]
          exact entry.frameLen.toNat_lt
        · rw [hbuilds.length_eq]
          exact hlen
      · rcases hmem record hrecord with hold | rfl
        · exact hkinds record hold
        · exact hbuilds.admissible
    exact ⟨_, out, seed, rfl, hseed, pending, staged, hbuilds, hplace, hwrite⟩

end MeissnerSeal
