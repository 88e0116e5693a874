/-
What a deleted item leaves behind: nothing.

# Two runs

Two runs of mutations in one session draw the same random values and differ
only in what they write as one record (`SameBut`). While the item lives the
two files differ in that record's frame (`Beside`). A rewrite copies the
other frames and nothing else, and the tombstone of a `delete` is built from
the id and fresh draws alone; so once the item is deleted the two file
systems are the same, byte for byte (`deleted_item_leaves_no_trace`): not
even its length can be told from the file.

# Going through

What can stop a call is a length that does not fit its field, and no length
but the sizes of what is written goes into the file. So of two runs whose
writes are of one size, both go through or neither (`Twins.run_goes_through`).
-/
import MeissnerSeal.Vault.TableGrowth

namespace MeissnerSeal

open ByteCodec ExceptRules GrowingList

variable {β : Type} {platform : Platform} {session : UnlockedVault} {fs fs' : Fs} {id : ItemId}
  {env : Env} {call call' : Mutation} {draws : Draws} {header : VaultHeader}
  {loaded loaded' : LoadedVault} {records records' : List PendingRecord}
  {record record' pending pending' : PendingRecord}

-- ============================================================= two records

/-- Records that are one, unless they are two items of id `id`. -/
def SameBut (id : ItemId) (record record' : PendingRecord) : Prop :=
  record = record' ∨ record.recordId = id ∧ record'.recordId = id
    ∧ record.recordKind = recordKindItem ∧ record'.recordKind = recordKindItem

/-- The two records differ in content only. -/
theorem SameBut.recordId_eq (h : SameBut id record record') :
    record.recordId = record'.recordId := by
  rcases h with rfl | ⟨hid, hid', -, -⟩
  · rfl
  · rw [hid, hid']

theorem SameBut.symm (h : SameBut id record record') : SameBut id record' record := by
  rcases h with rfl | ⟨hid, hid', hkind, hkind'⟩
  · exact .inl rfl
  · exact .inr ⟨hid', hid, hkind', hkind⟩

theorem SameBut.recordKind_eq (h : SameBut id record record') :
    record.recordKind = record'.recordKind := by
  rcases h with rfl | ⟨-, -, hkind, hkind'⟩
  · rfl
  · rw [hkind, hkind']

/-- So the two tables list the same ids. -/
theorem map_recordId_of_sameBut (h : List.Forall₂ (SameBut id) records records') :
    records.map PendingRecord.recordId = records'.map PendingRecord.recordId := by
  induction h with
  | nil => rfl
  | cons hsame _ ih => rw [List.map_cons, List.map_cons, hsame.recordId_eq, ih]

/-- Calls that are one, unless both write an item as record `id`. -/
inductive Mutation.SameBut (id : ItemId) (draws : Draws) : Mutation → Mutation → Prop where
  | same (call : Mutation) : SameBut id draws call call
  | add (item item' : PlainItem) (hid : draws.recordId = some id) :
      SameBut id draws (.add item) (.add item')
  | update (item item' : PlainItem) : SameBut id draws (.update id item) (.update id item')

/-- The draws determine the record a call builds. -/
theorem Mutation.Builds.unique (h : call.Builds platform draws session header pending)
    (h' : call.Builds platform draws session header pending') : pending = pending' := by
  have hitem : ∀ {item : PlainItem}, pending.recordId = pending'.recordId →
      pending.HoldsItem platform draws session.keys.itemWrapKey header item →
      pending'.HoldsItem platform draws session.keys.itemWrapKey header item →
      pending = pending' := by
    intro item hid hholds hholds'
    have hrevision := Option.some.inj (hholds.revisionId.symm.trans hholds'.revisionId)
    have hframe := hholds.frameBytes
    rw [hid, hrevision, hholds'.frameBytes, Except.ok.injEq] at hframe
    have hkind := hholds.recordKind.trans hholds'.recordKind.symm
    cases pending
    cases pending'
    simp_all only
  cases call with
  | add item => exact hitem (Option.some.inj (h.1.symm.trans h'.1)) h.2 h'.2
  | update id item => exact hitem (h.1.trans h'.1.symm) h.2 h'.2
  | delete id =>
      obtain ⟨hid, hholds⟩ := h
      obtain ⟨hid', hholds'⟩ := h'
      have hrevision := Option.some.inj (hholds.revisionId.symm.trans hholds'.revisionId)
      have hframe := hholds.frameBytes
      rw [hid.trans hid'.symm, hrevision, hholds'.frameBytes, Except.ok.injEq] at hframe
      have hkind := hholds.recordKind.trans hholds'.recordKind.symm
      cases pending
      cases pending'
      simp_all only

/-- Calls that write the same record build the same, but for its item. -/
theorem Mutation.SameBut.builds (h : Mutation.SameBut id draws call call')
    (hbuilds : call.Builds platform draws session header pending)
    (hbuilds' : call'.Builds platform draws session header pending') :
    MeissnerSeal.SameBut id pending pending' := by
  cases h with
  | same => exact .inl (hbuilds.unique hbuilds')
  | add item item' hid =>
      refine .inr ⟨?_, ?_, hbuilds.2.recordKind, hbuilds'.2.recordKind⟩
      · exact Option.some.inj (hbuilds.1.symm.trans hid)
      · exact Option.some.inj (hbuilds'.1.symm.trans hid)
  | update item item' =>
      exact .inr ⟨hbuilds.1, hbuilds'.1, hbuilds.2.recordKind, hbuilds'.2.recordKind⟩

/-- A reply is made of the draws, not of the item. -/
theorem Mutation.SameBut.reply (h : Mutation.SameBut id draws call call') :
    call.reply draws = call'.reply draws := by
  cases h <;> rfl

/-- And so is the id that is added. -/
theorem Mutation.SameBut.newId (h : Mutation.SameBut id draws call call') :
    call.newId draws = call'.newId draws := by
  cases h <;> rfl

theorem Mutation.SameBut.symm (h : Mutation.SameBut id draws call call') :
    Mutation.SameBut id draws call' call := by
  cases h with
  | same => exact .same call
  | add item item' hid => exact .add item' item hid
  | update item item' => exact .update item' item

-- ============================================================== two tables

/-- Tables that differ in one item tell the same positions. -/
theorem liveItemPosition_congr {bytes bytes' : Bytes}
    (hrecords : List.Forall₂ (EntryFor bytes) loaded.entries records)
    (hrecords' : List.Forall₂ (EntryFor bytes') loaded'.entries records')
    (hsame : List.Forall₂ (SameBut id) records records') (x : ItemId) :
    liveItemPosition loaded x = liveItemPosition loaded' x := by
  have hids : ∀ {bytes : Bytes} {loaded : LoadedVault} {records : List PendingRecord},
      List.Forall₂ (EntryFor bytes) loaded.entries records →
      liveItemPosition loaded x = records.findIdx? fun record =>
        decide (record.recordId = x ∧ record.recordKind = recordKindItem) := by
    intro bytes loaded records h
    apply List.Forall₂.findIdx?_eq h
    intro entry record hentry
    rw [hentry.recordId, hentry.recordKind]
  rw [hids hrecords, hids hrecords']
  apply List.Forall₂.findIdx?_eq hsame
  intro record record' h
  rw [h.recordId_eq, h.recordKind_eq]

/-- And the same tombstones. -/
theorem any_tombstone_congr {bytes bytes' : Bytes}
    (hrecords : List.Forall₂ (EntryFor bytes) loaded.entries records)
    (hrecords' : List.Forall₂ (EntryFor bytes') loaded'.entries records')
    (hsame : List.Forall₂ (SameBut id) records records') (x : ItemId) :
    (loaded.entries.any fun entry => entry.recordId = x ∧ entry.recordKind = recordKindTombstone)
      = loaded'.entries.any fun entry =>
        entry.recordId = x ∧ entry.recordKind = recordKindTombstone := by
  have hids : ∀ {bytes : Bytes} {loaded : LoadedVault} {records : List PendingRecord},
      List.Forall₂ (EntryFor bytes) loaded.entries records →
      (loaded.entries.any fun entry =>
          entry.recordId = x ∧ entry.recordKind = recordKindTombstone)
        = records.any fun record =>
          decide (record.recordId = x ∧ record.recordKind = recordKindTombstone) := by
    intro bytes loaded records h
    apply List.Forall₂.any_eq h
    intro entry record hentry
    rw [hentry.recordId, hentry.recordKind]
  rw [hids hrecords, hids hrecords']
  apply List.Forall₂.any_eq hsame
  intro record record' h
  rw [h.recordId_eq, h.recordKind_eq]

/-- The new records stand in the same place. -/
theorem Mutation.SameBut.place {bytes bytes' : Bytes} {staged staged' : List PendingRecord}
    (h : Mutation.SameBut id draws call call')
    (hrecords : List.Forall₂ (EntryFor bytes) loaded.entries records)
    (hrecords' : List.Forall₂ (EntryFor bytes') loaded'.entries records')
    (hsame : List.Forall₂ (MeissnerSeal.SameBut id) records records')
    (hpending : MeissnerSeal.SameBut id pending pending')
    (hplace : call.place loaded records pending = some staged)
    (hplace' : call'.place loaded' records' pending' = some staged') :
    List.Forall₂ (MeissnerSeal.SameBut id) staged staged' := by
  have hset : ∀ x, (liveItemPosition loaded x).map (fun position => records.set position pending)
        = some staged →
      (liveItemPosition loaded' x).map (fun position => records'.set position pending')
        = some staged' →
      List.Forall₂ (MeissnerSeal.SameBut id) staged staged' := by
    intro x hplace hplace'
    obtain ⟨position, hposition, rfl⟩ := Option.map_eq_some_iff.mp hplace
    obtain ⟨position', hposition', rfl⟩ := Option.map_eq_some_iff.mp hplace'
    rw [← liveItemPosition_congr hrecords hrecords' hsame, hposition,
      Option.some.injEq] at hposition'
    subst hposition'
    exact hsame.set hpending position
  have happend : some (records ++ [pending]) = some staged →
      some (records' ++ [pending']) = some staged' →
      List.Forall₂ (MeissnerSeal.SameBut id) staged staged' := by
    intro hplace hplace'
    obtain rfl := Option.some.inj hplace
    obtain rfl := Option.some.inj hplace'
    exact List.rel_append hsame (.cons hpending .nil)
  cases h with
  | same call =>
      cases call with
      | add item => exact happend hplace hplace'
      | update x item => exact hset x hplace hplace'
      | delete x => exact hset x hplace hplace'
  | add item item' hid => exact happend hplace hplace'
  | update item item' => exact hset id hplace hplace'

-- =============================================================== two files

/-- Loaded vaults a rewrite copies the same bytes of. -/
structure LoadedVault.Beside (loaded loaded' : LoadedVault) : Prop where
  header : loaded'.header = loaded.header
  wrkFrameOffset : loaded'.wrkFrameOffset = loaded.wrkFrameOffset
  wrkFrameLen : loaded'.wrkFrameLen = loaded.wrkFrameLen
  headerBytes : slice? loaded'.bytes headerMinLen loaded.wrkFrameOffset
    = slice? loaded.bytes headerMinLen loaded.wrkFrameOffset
  wrkBytes : slice? loaded'.bytes loaded.wrkFrameOffset loaded.wrkFrameEnd
    = slice? loaded.bytes loaded.wrkFrameOffset loaded.wrkFrameEnd

/-- The frames begin at one place in both files. -/
theorem LoadedVault.Beside.wrkFrameEnd_eq (h : loaded.Beside loaded') :
    loaded'.wrkFrameEnd = loaded.wrkFrameEnd := by
  unfold wrkFrameEnd
  rw [h.wrkFrameOffset, h.wrkFrameLen]

theorem LoadedVault.Beside.symm (h : loaded.Beside loaded') : loaded'.Beside loaded := by
  refine ⟨h.header.symm, h.wrkFrameOffset.symm, h.wrkFrameLen.symm, ?_, ?_⟩
  · rw [h.wrkFrameOffset]
    exact h.headerBytes.symm
  · rw [h.wrkFrameOffset, h.wrkFrameEnd_eq]
    exact h.wrkBytes.symm

/-- A rewrite reads nothing else of a file. -/
theorem LoadedVault.Beside.rewritten_eq (h : loaded.Beside loaded') :
    rewrittenVault platform draws session loaded' records
      = rewrittenVault platform draws session loaded records := by
  have hwrk : ∀ {n : Nat}, checkedAdd loaded.wrkFrameOffset loaded.wrkFrameLen = some n →
      slice? loaded'.bytes loaded.wrkFrameOffset n
        = slice? loaded.bytes loaded.wrkFrameOffset n := by
    intro n hn
    obtain ⟨rfl, -⟩ := checkedAdd_eq_some.mp hn
    exact h.wrkBytes
  unfold rewrittenVault
  rw [h.header, h.wrkFrameOffset, h.wrkFrameLen, h.headerBytes]
  cases hend : checkedAdd loaded.wrkFrameOffset loaded.wrkFrameLen with
  | none => rfl
  | some n =>
      simp only [okOr_some, ok_bind]
      rw [hwrk hend]

/-- What is written over them loads the same way again. -/
theorem LoadedVault.Beside.reloads {staged staged' : List PendingRecord} {out out' : Bytes}
    {reloaded reloaded' : LoadedVault} (h : loaded.Beside loaded')
    (hreloads : loaded.Reloads staged out reloaded)
    (hreloads' : loaded'.Reloads staged' out' reloaded') : reloaded.Beside reloaded' := by
  have hoffset : reloaded'.wrkFrameOffset = reloaded.wrkFrameOffset := by
    rw [hreloads.wrkFrameOffset_eq, hreloads'.wrkFrameOffset_eq, h.wrkFrameOffset]
  have hend' : loaded'.wrkFrameEnd = loaded.wrkFrameEnd := h.wrkFrameEnd_eq
  have hend : reloaded'.wrkFrameEnd = reloaded.wrkFrameEnd := by
    rw [hreloads.wrkFrameEnd_eq, hreloads'.wrkFrameEnd_eq, hend']
  obtain ⟨headerBytes, hheader, hheaderOut⟩ := hreloads.header_kept
  obtain ⟨headerBytes', hheader', hheaderOut'⟩ := hreloads'.header_kept
  obtain ⟨wrkBytes, hwrk, hwrkOut⟩ := hreloads.wrkFrame_kept
  obtain ⟨wrkBytes', hwrk', hwrkOut'⟩ := hreloads'.wrkFrame_kept
  rw [h.wrkFrameOffset] at hheader' hheaderOut' hwrk' hwrkOut'
  rw [hend'] at hwrk' hwrkOut'
  refine ⟨?_, hoffset, ?_, ?_, ?_⟩
  · rw [hreloads.header_eq, hreloads'.header_eq, h.header]
  · unfold wrkFrameEnd at hend
    omega
  · rw [hreloads.wrkFrameOffset_eq, hreloads.bytes_eq, hreloads'.bytes_eq, hheaderOut, hheaderOut',
      ← hheader, ← hheader', h.headerBytes]
  · rw [hreloads.wrkFrameOffset_eq, hreloads.wrkFrameEnd_eq, hreloads.bytes_eq, hreloads'.bytes_eq,
      hwrkOut, hwrkOut', ← hwrk, ← hwrk', h.wrkBytes]

/-- File systems that differ at the vault's path at most, and there in the
frame of record `id`. -/
structure Twins (platform : Platform) (session : UnlockedVault) (id : ItemId)
    (records records' : List PendingRecord) (fs fs' : Fs) : Prop where
  apart : AgreesOff session.path fs fs'
  files : ∃ bytes bytes' loaded loaded', fs session.path = some bytes
    ∧ fs' session.path = some bytes'
    ∧ loadVaultBytes platform session bytes = .ok loaded
    ∧ loadVaultBytes platform session bytes' = .ok loaded'
    ∧ List.Forall₂ (EntryFor loaded.bytes) loaded.entries records
    ∧ List.Forall₂ (EntryFor loaded'.bytes) loaded'.entries records' ∧ loaded.Beside loaded'
  same : List.Forall₂ (SameBut id) records records'
  eq_of_eq : records = records' → fs = fs'

/-- A vault is its own twin. -/
theorem Twins.refl (id : ItemId) (h : (tableAt platform session fs).1 = .ok records) :
    Twins platform session id records records fs fs := by
  obtain ⟨bytes, loaded, hfs, hload, hrecords⟩ := tableAt_eq_ok.mp h
  refine ⟨fun _ _ => rfl, ⟨bytes, bytes, loaded, loaded, hfs, hfs, hload, hload, hrecords, hrecords,
    ⟨rfl, rfl, rfl, rfl, rfl⟩⟩, ?_, fun _ => rfl⟩
  exact List.forall₂_same.mpr fun record _ => .inl rfl

theorem Twins.symm (h : Twins platform session id records records' fs fs') :
    Twins platform session id records' records fs' fs := by
  obtain ⟨bytes, bytes', loaded, loaded', hfs, hfs', hload, hload', hrecords, hrecords', hbeside⟩ :=
    h.files
  refine ⟨fun p hp => (h.apart p hp).symm,
    ⟨bytes', bytes, loaded', loaded, hfs', hfs, hload', hload, hrecords', hrecords, hbeside.symm⟩,
      ?_, fun heq => (h.eq_of_eq heq.symm).symm⟩
  exact h.same.flip.imp fun _ _ => SameBut.symm

/-- The first file has the first table. -/
theorem Twins.tableAt (h : Twins platform session id records records' fs fs') :
    (tableAt platform session fs).1 = .ok records := by
  obtain ⟨bytes, bytes', loaded, loaded', hfs, -, hload, -, hrecords, -⟩ := h.files
  exact tableAt_eq_ok.mpr ⟨bytes, loaded, hfs, hload, hrecords⟩

-- ================================================================ one step

/-- A mutation that returns has found its tombstone there, or written. -/
theorem Mutation.of_run_ok {bytes : Bytes} {r : Option ItemId} (hfs : fs session.path = some bytes)
    (hrun : call.run platform env session fs = (.ok r, fs')) :
    call.plan platform env.draws session bytes = .ok ⟨r, none⟩ ∧ fs' = fs
      ∨ ∃ out seed, call.plan platform env.draws session bytes = .ok ⟨r, some (out, seed)⟩
        ∧ fs' = fs.set session.path (some out) := by
  rw [Mutation.run_eq_mutate] at hrun
  obtain ⟨e, fs'', hfail, -⟩ | ⟨value, hplan, hnoop⟩ | ⟨value, out, seed, -, hplan, -, hwrite⟩ :=
    mutate_cases hfs
  · rw [hrun] at hfail
    cases hfail
  · rw [hrun, Prod.mk.injEq, Except.ok.injEq] at hnoop
    obtain ⟨rfl, rfl⟩ := hnoop
    exact .inl ⟨hplan, rfl⟩
  · rw [hrun, Prod.mk.injEq] at hwrite
    obtain ⟨hreply, rfl⟩ := hwrite
    cases hafter : env.io.afterRename with
    | true =>
        rw [hafter] at hreply
        cases hreply
    | false =>
        rw [hafter] at hreply
        obtain rfl := Except.ok.inj hreply
        exact .inr ⟨out, seed, hplan, rfl⟩

/-- Only a `delete` that finds no live item has nothing to write. -/
theorem Mutation.of_noop {bytes : Bytes} {value : Option ItemId}
    (hload : loadVaultBytes platform session bytes = .ok loaded)
    (hplan : call.plan platform draws session bytes = .ok ⟨value, none⟩) :
    ∃ x, call = .delete x ∧ value = none ∧ liveItemPosition loaded x = none := by
  obtain ⟨x, loaded', rfl, hload', hposition, -⟩ := Mutation.of_plan_none hplan
  obtain rfl := Except.ok.inj (hload.symm.trans hload')
  refine ⟨x, rfl, ?_, hposition⟩
  simp only [Mutation.plan, bind_eq_ok, pure_eq_ok, Except.ok.injEq, Plan.mk.injEq] at hplan
  obtain ⟨planned, -, hvalue, -⟩ := hplan
  exact hvalue.symm

/-- Twins that go through two calls which differ in record `id` at most are
twins again, and the calls return the same. -/
theorem Twins.step {fs₁ fs₁' : Fs} {r r' : Option ItemId}
    (h : Twins platform session id records records' fs fs')
    (hsame : Mutation.SameBut id env.draws call call')
    (hfresh : ∀ x, call.newId env.draws = some x → x ∉ records.map PendingRecord.recordId)
    (hrun : call.run platform env session fs = (.ok r, fs₁))
    (hrun' : call'.run platform env session fs' = (.ok r', fs₁')) :
    r = r' ∧ ∃ after after', Twins platform session id after after' fs₁ fs₁'
      ∧ ∀ x ∈ after.map PendingRecord.recordId,
        x ∈ records.map PendingRecord.recordId ∨ call.newId env.draws = some x := by
  obtain ⟨bytes, bytes', loaded, loaded', hfs, hfs', hload, hload', hrecords, hrecords', hbeside⟩ :=
    h.files
  have hposition := liveItemPosition_congr hrecords hrecords' h.same
  -- A call that finds its item in the one file finds it in the other.
  have hboth : ∀ {value out seed}, ∀ x, call = .delete x ∨ call' = .delete x →
      liveItemPosition loaded x = none → (call.plan platform env.draws session bytes
          = .ok ⟨value, some (out, seed)⟩
        ∨ call'.plan platform env.draws session bytes' = .ok ⟨value, some (out, seed)⟩) →
          False := by
    intro value out seed x hcall hnone hplan
    have hdelete : call = .delete x ∧ call' = .delete x := by
      cases hsame with
      | same => exact hcall.elim (fun h => ⟨h, h⟩) fun h => ⟨h, h⟩
      | add item item' hid => exact hcall.elim (fun h => nomatch h) fun h => nomatch h
      | update item item' => exact hcall.elim (fun h => nomatch h) fun h => nomatch h
    rcases hplan with hplan | hplan
    · rw [hdelete.1, Mutation.plan_writes_iff hload hrecords] at hplan
      obtain ⟨-, -, pending, staged, -, hplace, -⟩ := hplan
      rw [Mutation.place, hnone] at hplace
      cases hplace
    · rw [hdelete.2, Mutation.plan_writes_iff hload' hrecords'] at hplan
      obtain ⟨-, -, pending, staged, -, hplace, -⟩ := hplan
      rw [Mutation.place, ← hposition, hnone] at hplace
      cases hplace
  -- either both wrote nothing, or both wrote
  rcases Mutation.of_run_ok hfs hrun with ⟨hplan, rfl⟩ | ⟨out, seed, hplan, rfl⟩
  · obtain ⟨x, hcall, rfl, hnone⟩ := Mutation.of_noop hload hplan
    rcases Mutation.of_run_ok hfs' hrun' with ⟨hplan', rfl⟩ | ⟨out', seed', hplan', rfl⟩
    · obtain ⟨-, -, rfl, -⟩ := Mutation.of_noop hload' hplan'
      exact ⟨rfl, records, records', h, fun _ => .inl⟩
    · exact (hboth x (.inl hcall) hnone (.inr hplan')).elim
  · rcases Mutation.of_run_ok hfs' hrun' with ⟨hplan', rfl⟩ | ⟨out', seed', hplan', rfl⟩
    · obtain ⟨x, hcall, -, hnone⟩ := Mutation.of_noop hload' hplan'
      exact (hboth x (.inr hcall) ((hposition x).trans hnone) (.inl hplan)).elim
    · obtain ⟨rfl, -, pending, staged, hbuilds, hplace, hwrite⟩ :=
        (Mutation.plan_writes_iff hload hrecords).mp hplan
      obtain ⟨rfl, -, pending', staged', hbuilds', hplace', hwrite'⟩ :=
        (Mutation.plan_writes_iff hload' hrecords').mp hplan'
      rw [hbeside.header] at hbuilds'
      have hstaged : List.Forall₂ (SameBut id) staged staged' :=
        hsame.place hrecords hrecords' h.same (hsame.builds hbuilds hbuilds') hplace hplace'
      obtain ⟨headerBytes, wrkBytes, headerLen, wrkLen, hfound⟩ := found_of_load hload
      obtain ⟨headerBytes', wrkBytes', headerLen', wrkLen', hfound'⟩ := found_of_load hload'
      -- what was staged has distinct ids, so both files load again
      have hids : records.map PendingRecord.recordId
        = loaded.entries.map RecordTableEntry.recordId :=
        map_recordId_of_entryFor hrecords
      have hnodup : (staged.map PendingRecord.recordId).Nodup := by
        apply (hbuilds.nodup_iff hids hfound.nodup hplace).mpr
        rw [hids] at hfresh
        cases call with
        | add item => exact hfresh
        | update x item => trivial
        | delete x => trivial
      have hnodup' : (staged'.map PendingRecord.recordId).Nodup := by
        rw [← map_recordId_of_sameBut hstaged]
        exact hnodup
      obtain ⟨reloaded, hreload, hreloads⟩ := hfound.exists_reload hwrite hnodup
      obtain ⟨reloaded', hreload', hreloads'⟩ := hfound'.exists_reload hwrite' hnodup'
      refine ⟨hsame.reply, staged, staged', ⟨?_, ?_, hstaged, ?_⟩, hbuilds.mem_ids hrecords hplace⟩
      · intro p hp
        rw [Fs.set_of_ne _ _ hp, Fs.set_of_ne _ _ hp]
        exact h.apart p hp
      · refine ⟨out, out', reloaded, reloaded', Fs.set_self .., Fs.set_self ..,
          hreload, hreload', ?_, ?_, hbeside.reloads hreloads hreloads'⟩
        · rw [hreloads.bytes_eq]
          exact hreloads.records
        · rw [hreloads'.bytes_eq]
          exact hreloads'.records
      · intro heq
        rw [← heq, hbeside.rewritten_eq, hwrite, Except.ok.injEq] at hwrite'
        rw [hwrite']
        funext p
        by_cases hp : p = session.path
        · rw [hp, Fs.set_self, Fs.set_self]
        · rw [Fs.set_of_ne _ _ hp, Fs.set_of_ne _ _ hp]
          exact (h.apart p hp).symm

-- =========================================================== going through

/-- A mutation of a file that loads goes through where the file is read and
there is nothing to write, or what there is can be built and is persisted. -/
theorem Mutation.exists_run_iff {bytes : Bytes} (hfs : fs session.path = some bytes)
    (hload : loadVaultBytes platform session bytes = .ok loaded) :
    (∃ r fs', call.run platform env session fs = (.ok r, fs'))
      ↔ env.io.read = false
        ∧ ((∃ value, call.plan platform env.draws session bytes = .ok ⟨value, none⟩)
          ∨ call.Writes env.draws loaded ∧ env.Persists session.path fs
            ∧ env.io.afterRename = false) := by
  obtain ⟨headerBytes, wrkBytes, headerLen, wrkLen, hfound⟩ := found_of_load hload
  obtain ⟨records, hrecords, -⟩ := hfound.exists_records
  have hseed_of : ∀ {value out seed}, call.plan platform env.draws session bytes
      = .ok ⟨value, some (out, seed)⟩ → env.draws.uniqueSeed = some seed :=
    fun hplan => ((Mutation.plan_writes_iff hload hrecords).mp hplan).2.1
  rw [Mutation.run_eq_mutate]
  constructor
  · rintro ⟨r, fs', hrun⟩
    have hread : env.io.read = false := by
      rw [← Bool.not_eq_true]
      intro hfault
      rw [mutate_of_read_fault hfault] at hrun
      cases hrun
    refine ⟨hread, ?_⟩
    obtain ⟨e, fs'', hfail, -⟩ | ⟨value, hplan, -⟩ | ⟨value, out, seed, -, hplan, hreach, hwrite⟩ :=
      mutate_cases hfs
    · rw [hrun] at hfail
      cases hfail
    · exact .inl ⟨value, hplan⟩
    · refine .inr ⟨(Mutation.exists_plan_iff_of_load hload).mp ⟨value, out, seed, hplan⟩,
        ⟨hread, seed, hseed_of hplan, hreach⟩, ?_⟩
      rw [hrun] at hwrite
      cases hafter : env.io.afterRename with
      | false => rfl
      | true =>
          rw [hafter] at hwrite
          cases (Prod.mk.inj hwrite).1
  · rintro ⟨hread, ⟨value, hplan⟩ | ⟨hwrites, ⟨-, seed, hseed, hreach⟩, hafter⟩⟩
    · exact ⟨value, fs, mutate_of_noop hfs hread hplan⟩
    · obtain ⟨value, out, seed', hplan⟩ := (Mutation.exists_plan_iff_of_load hload).mpr hwrites
      obtain rfl : seed = seed' := Option.some.inj (hseed.symm.trans (hseed_of hplan))
      refine ⟨value, fs.set session.path (some out), ?_⟩
      rw [mutate_of_reachesRename hfs hread hplan hreach, hafter]
      rfl

/-- A `delete` has nothing to do where there is a tombstone. -/
theorem Mutation.exists_noop_iff {bytes : Bytes}
    (hload : loadVaultBytes platform session bytes = .ok loaded) :
    (∃ value, call.plan platform draws session bytes = .ok ⟨value, none⟩)
      ↔ ∃ x, call = .delete x ∧ liveItemPosition loaded x = none
        ∧ (loaded.entries.any fun entry =>
            entry.recordId = x ∧ entry.recordKind = recordKindTombstone) = true := by
  constructor
  · rintro ⟨value, hplan⟩
    obtain ⟨x, loaded', hcall, hload', hnone, hany⟩ := Mutation.of_plan_none hplan
    obtain rfl := Except.ok.inj (hload.symm.trans hload')
    exact ⟨x, hcall, hnone, hany⟩
  · rintro ⟨x, rfl, hnone, hany⟩
    refine ⟨none, ?_⟩
    simp only [Mutation.plan, planDelete, hload, ok_bind, hnone, hany, if_true, pure_eq_ok]

/-- Whether a record can be put in its place is a matter of the positions,
and how many there are of how many there were. -/
theorem Mutation.SameBut.exists_frameLens {lens : List Nat}
    (h : Mutation.SameBut id draws call call')
    (hposition : ∀ x, liveItemPosition loaded x = liveItemPosition loaded' x)
    (hcount : loaded.entries.length = loaded'.entries.length)
    (hlens : call.frameLens loaded = some lens) :
    ∃ lens', call'.frameLens loaded' = some lens' ∧ lens'.length = lens.length := by
  have hset : ∀ (x : ItemId) (n n' : Nat),
      ((liveItemPosition loaded x).map fun position =>
        (loaded.entries.map fun entry => entry.frameLen.toNat).set position n) = some lens →
      ∃ lens', ((liveItemPosition loaded' x).map fun position =>
          (loaded'.entries.map fun entry => entry.frameLen.toNat).set position n') = some lens'
        ∧ lens'.length = lens.length := by
    intro x n n' hlens
    obtain ⟨position, hlive, rfl⟩ := Option.map_eq_some_iff.mp hlens
    refine ⟨_, by rw [← hposition, hlive, Option.map_some], ?_⟩
    rw [List.length_set, List.length_set, List.length_map, List.length_map, hcount]
  have happend : ∀ n n' : Nat,
      some ((loaded.entries.map fun entry => entry.frameLen.toNat) ++ [n]) = some lens →
      ∃ lens', some ((loaded'.entries.map fun entry => entry.frameLen.toNat) ++ [n']) = some lens'
        ∧ lens'.length = lens.length := by
    intro n n' hlens
    obtain rfl := Option.some.inj hlens
    refine ⟨_, rfl, ?_⟩
    rw [List.length_append, List.length_append, List.length_map, List.length_map, hcount]
    rfl
  cases h with
  | same call =>
      cases call with
      | add item => exact happend _ _ hlens
      | update x item => exact hset x _ _ hlens
      | delete x => exact hset x _ _ hlens
  | add item item' hid => exact happend _ _ hlens
  | update item item' => exact hset id _ _ hlens

/-- Contents of one size can be written alike. -/
theorem Mutation.SameBut.writes (h : Mutation.SameBut id draws call call')
    (hsize : storedFrameLen call.content = storedFrameLen call'.content)
    (hposition : ∀ x, liveItemPosition loaded x = liveItemPosition loaded' x)
    (hcount : loaded.entries.length = loaded'.entries.length) (hwrites : call.Writes draws loaded) :
    call'.Writes draws loaded' := by
  obtain ⟨hdrawn, hlen, lens, hlens, hmax⟩ := hwrites
  obtain ⟨lens', hlens', hlength⟩ := h.exists_frameLens hposition hcount hlens
  refine ⟨?_, hsize ▸ hlen, lens', hlens', hlength ▸ hmax⟩
  cases h with
  | same => exact hdrawn
  | add item item' hid => exact hdrawn
  | update item item' => exact hdrawn

/-- Of two calls that write contents of one size to twins, the one goes
through if the other does. -/
theorem Twins.goes_through (h : Twins platform session id records records' fs fs')
    (hsame : Mutation.SameBut id env.draws call call')
    (hsize : storedFrameLen call.content = storedFrameLen call'.content)
    (hrun : ∃ r fs₁, call.run platform env session fs = (.ok r, fs₁)) :
    ∃ r fs₁, call'.run platform env session fs' = (.ok r, fs₁) := by
  obtain ⟨bytes, bytes', loaded, loaded', hfs, hfs', hload, hload', hrecords, hrecords', -⟩ :=
    h.files
  have hposition := liveItemPosition_congr hrecords hrecords' h.same
  obtain ⟨hread, hrun⟩ := (Mutation.exists_run_iff hfs hload).mp hrun
  refine (Mutation.exists_run_iff hfs' hload').mpr ⟨hread, ?_⟩
  rcases hrun with hnoop | ⟨hwrites, hpersists, hafter⟩
  · obtain ⟨x, rfl, hnone, hany⟩ := (Mutation.exists_noop_iff hload).mp hnoop
    cases hsame
    refine .inl ((Mutation.exists_noop_iff hload').mpr ⟨x, rfl, (hposition x).symm.trans hnone, ?_⟩)
    rw [← any_tombstone_congr hrecords hrecords' h.same]
    exact hany
  · have hcount : loaded.entries.length = loaded'.entries.length :=
      hrecords.length_eq.trans (h.same.length_eq.trans hrecords'.length_eq.symm)
    exact .inr ⟨hsame.writes hsize hposition hcount hwrites,
      (Env.persists_congr h.apart).mpr hpersists, hafter⟩

-- =================================================================== a run

/-- The id has a tombstone. -/
def Buried (id : ItemId) (records : List PendingRecord) : Prop :=
  ∃ record ∈ records, record.recordId = id ∧ record.recordKind = recordKindTombstone

/-- A tombstone stays, and a `delete` that returns leaves one. -/
theorem Buried.step {r : Option ItemId} {before after : List PendingRecord}
    (hbefore : (tableAt platform session fs).1 = .ok before)
    (hafter : (tableAt platform session fs').1 = .ok after)
    (hfresh : ∀ x, call.newId env.draws = some x → x ∉ before.map PendingRecord.recordId)
    (hrun : call.run platform env session fs = (.ok r, fs'))
    (h : Buried id before ∨ call = .delete id) : Buried id after := by
  have hfs : (call.run platform env session fs).2 = fs' := by rw [hrun]
  rcases h with ⟨record, hmem, hid, hkind⟩ | rfl
  · obtain ⟨after', hafter', hgrows, -⟩ := Mutation.tableAt_run hbefore hfresh
    rw [hfs, hafter, Except.ok.injEq] at hafter'
    subst hafter'
    obtain ⟨record', hmem', hages, -⟩ := hgrows.exists_of_mem hmem
    refine ⟨record', hmem', hages.recordId.trans hid, ?_⟩
    obtain hsame | ⟨hitem, -⟩ := hages.recordKind
    · exact hsame.trans hkind
    · rw [hkind] at hitem
      exact absurd hitem (by decide)
  · have hok : ((Mutation.delete id).run platform env session fs).1 = .ok r := by rw [hrun]
    obtain ⟨after', hafter', hburied⟩ := tombstone_of_delete hbefore hok
    rw [hfs, hafter, Except.ok.injEq] at hafter'
    subst hafter'
    exact hburied

/-- Twins of which the one record is deleted are one. -/
theorem Twins.eq_of_buried (h : Twins platform session id records records' fs fs')
    (hburied : Buried id records) : fs = fs' := by
  apply h.eq_of_eq
  obtain ⟨tombstone, htombstone, hid, hkind⟩ := hburied
  have hnodup := nodup_of_tableAt h.tableAt
  have hequal : ∀ record ∈ records, ∀ record', SameBut id record record' → record = record' := by
    intro record hmem record' hsame
    rcases hsame with hsame | ⟨hid', -, hitem, -⟩
    · exact hsame
    · obtain rfl := List.inj_on_of_nodup_map hnodup htombstone hmem (hid.trans hid'.symm)
      rw [hkind] at hitem
      exact absurd hitem (by decide)
  have hsame := h.same
  clear h hnodup htombstone
  induction hsame with
  | nil => rfl
  | cons hhead _ ih =>
      rw [hequal _ List.mem_cons_self _ hhead,
        ih fun record hmem => hequal record (List.mem_cons_of_mem _ hmem)]

/-- Mutations one after the other, up to the first that fails. -/
def runMutations (platform : Platform) (session : UnlockedVault) :
    List (Env × Mutation) → FsM (List (Option ItemId))
  | [] => pure []
  | (env, call) :: ops => do
      let reply ← call.run platform env session
      let replies ← runMutations platform session ops
      return reply :: replies

/-- The ids they draw for new records. -/
def newIds (ops : List (Env × Mutation)) : List ItemId :=
  ops.flatMap fun op => (op.2.newId op.1.draws).toList

/-- Operations that differ in record `id` at most. -/
def SameOperation (id : ItemId) (op op' : Env × Mutation) : Prop :=
  op'.1 = op.1 ∧ Mutation.SameBut id op.1.draws op.2 op'.2

/-- Operations that write contents of one size. -/
def SameSize (op op' : Env × Mutation) : Prop :=
  storedFrameLen op.2.content = storedFrameLen op'.2.content

theorem SameOperation.symm {op op' : Env × Mutation} (h : SameOperation id op op') :
    SameOperation id op' op := by
  refine ⟨h.1.symm, ?_⟩
  rw [h.1]
  exact h.2.symm

/-- They draw the same ids. -/
theorem newIds_congr {ops ops' : List (Env × Mutation)}
    (h : List.Forall₂ (SameOperation id) ops ops') : newIds ops = newIds ops' := by
  induction h with
  | nil => rfl
  | cons hop _ ih =>
      unfold newIds at ih ⊢
      rw [List.flatMap_cons, List.flatMap_cons, ih, hop.1, hop.2.newId]

/-- A run that goes through begins with a call that does. -/
theorem runMutations_cons_eq_ok {op : Env × Mutation} {ops : List (Env × Mutation)}
    {replies : List (Option ItemId)}
    (h : runMutations platform session (op :: ops) fs = (.ok replies, fs')) :
    ∃ r rs fs₁, op.2.run platform op.1 session fs = (.ok r, fs₁)
      ∧ runMutations platform session ops fs₁ = (.ok rs, fs') ∧ replies = r :: rs := by
  rw [runMutations, FsM.bind_apply] at h
  rcases hrun : op.2.run platform op.1 session fs with ⟨e | r, fs₁⟩
  · rw [hrun] at h
    cases h
  · rw [hrun] at h
    dsimp only at h
    rw [FsM.bind_apply] at h
    rcases hrest : runMutations platform session ops fs₁ with ⟨e | rs, fs₂⟩
    · rw [hrest] at h
      cases h
    · rw [hrest] at h
      obtain ⟨hreplies, rfl⟩ := Prod.mk.inj h
      exact ⟨r, rs, fs₁, rfl, hrest, (Except.ok.inj hreplies).symm⟩

/-- And the other way. -/
theorem runMutations_cons {ops : List (Env × Mutation)} {r : Option ItemId}
    {rs : List (Option ItemId)} {mid : Fs} (h : call.run platform env session fs = (.ok r, mid))
    (hrest : runMutations platform session ops mid = (.ok rs, fs')) :
    runMutations platform session ((env, call) :: ops) fs = (.ok (r :: rs), fs') := by
  rw [runMutations, FsM.bind_apply, h]
  dsimp only
  rw [FsM.bind_apply, hrest]
  rfl

/-- The first of two runs' calls: the twins stay twins, and what is drawn
behind it is new to them. -/
theorem Twins.step_of_nodup {ops : List (Env × Mutation)} {ids : List ItemId} {fs₁ fs₁' : Fs}
    {r r' : Option ItemId} (h : Twins platform session id records records' fs fs')
    (hsame : Mutation.SameBut id env.draws call call')
    (hids : ∀ x ∈ records.map PendingRecord.recordId, x ∈ ids)
    (hnodup : (ids ++ newIds ((env, call) :: ops)).Nodup)
    (hrun : call.run platform env session fs = (.ok r, fs₁))
    (hrun' : call'.run platform env session fs' = (.ok r', fs₁')) :
    r = r' ∧ ∃ after after' ids', Twins platform session id after after' fs₁ fs₁'
      ∧ (∀ x ∈ after.map PendingRecord.recordId, x ∈ ids') ∧ (ids' ++ newIds ops).Nodup
      ∧ (Buried id records ∨ call = .delete id → Buried id after) := by
  have hdrawn : newIds ((env, call) :: ops) = (call.newId env.draws).toList ++ newIds ops :=
    List.flatMap_cons
  rw [hdrawn, ← List.append_assoc] at hnodup
  have hfresh : ∀ x, call.newId env.draws = some x → x ∉ records.map PendingRecord.recordId := by
    intro x hx hmem
    have hleft := (List.nodup_append.mp hnodup).1
    rw [hx] at hleft
    exact (List.nodup_append.mp hleft).2.2 x (hids x hmem) x (List.mem_singleton_self x) rfl
  obtain ⟨hreply, after, after', htwins, hgrown⟩ := h.step hsame hfresh hrun hrun'
  refine ⟨hreply, after, after', _, htwins, fun x hx => ?_, hnodup,
    @Buried.step platform session fs fs₁ id env call r records after h.tableAt htwins.tableAt hfresh
      hrun⟩
  rcases hgrown x hx with hold | hnew
  · exact List.mem_append_left _ (hids x hold)
  · rw [hnew]
    exact List.mem_append_right _ (List.mem_singleton_self x)

/-- Twins stay twins over runs that differ in record `id` at most. -/
theorem Twins.run {ops ops' : List (Env × Mutation)} {replies replies' : List (Option ItemId)}
    {ids : List ItemId} {fs₁ fs₁' : Fs} (h : Twins platform session id records records' fs fs')
    (hsame : List.Forall₂ (SameOperation id) ops ops')
    (hids : ∀ x ∈ records.map PendingRecord.recordId, x ∈ ids) (hnodup : (ids ++ newIds ops).Nodup)
    (hrun : runMutations platform session ops fs = (.ok replies, fs₁))
    (hrun' : runMutations platform session ops' fs' = (.ok replies', fs₁')) :
    replies = replies' ∧ ∃ after after', Twins platform session id after after' fs₁ fs₁'
      ∧ (Buried id records ∨ (∃ env, (env, Mutation.delete id) ∈ ops) → Buried id after) := by
  induction hsame generalizing records records' fs fs' ids replies replies' with
  | nil =>
      obtain ⟨hreplies, rfl⟩ := Prod.mk.inj hrun
      obtain ⟨hreplies', rfl⟩ := Prod.mk.inj hrun'
      refine ⟨Except.ok.inj (hreplies.symm.trans hreplies'), records, records', h, fun hor => ?_⟩
      exact hor.resolve_right fun ⟨_, hmem⟩ => by cases hmem
  | @cons op op' ops ops' hop hrest ih =>
      obtain ⟨env, call⟩ := op
      obtain ⟨env', call'⟩ := op'
      obtain ⟨rfl, hcall⟩ := hop
      obtain ⟨r, rs, mid, hfirst, hthen, rfl⟩ := runMutations_cons_eq_ok hrun
      obtain ⟨r', rs', mid', hfirst', hthen', rfl⟩ := runMutations_cons_eq_ok hrun'
      obtain ⟨rfl, mids, mids', ids', htwins, hids', hnodup', hstep⟩ :=
        h.step_of_nodup hcall hids hnodup hfirst hfirst'
      obtain ⟨rfl, after, after', hafter, hburied⟩ := ih htwins hids' hnodup' hthen hthen'
      refine ⟨rfl, after, after', hafter, fun hor => hburied ?_⟩
      rcases hor with hold | ⟨env, hmem⟩
      · exact .inl (hstep (.inl hold))
      · rcases List.mem_cons.mp hmem with heq | hmem
        · exact .inl (hstep (.inr (Prod.mk.inj heq).2.symm))
        · exact .inr ⟨env, hmem⟩

/-- Of two runs over twins that write contents of one size, the one goes
through if the other does. -/
theorem Twins.run_goes_through {ops ops' : List (Env × Mutation)} {ids : List ItemId}
    (h : Twins platform session id records records' fs fs')
    (hsame : List.Forall₂ (SameOperation id) ops ops') (hsize : List.Forall₂ SameSize ops ops')
    (hids : ∀ x ∈ records.map PendingRecord.recordId, x ∈ ids) (hnodup : (ids ++ newIds ops).Nodup)
    (hrun : ∃ replies fs₁, runMutations platform session ops fs = (.ok replies, fs₁)) :
    ∃ replies fs₁, runMutations platform session ops' fs' = (.ok replies, fs₁) := by
  induction hsame generalizing records records' fs fs' ids with
  | nil => exact ⟨[], fs', rfl⟩
  | @cons op op' ops ops' hop hrest ih =>
      obtain ⟨env, call⟩ := op
      obtain ⟨env', call'⟩ := op'
      obtain ⟨rfl, hcall⟩ := hop
      obtain ⟨hfirstSize, hrestSize⟩ := List.forall₂_cons.mp hsize
      obtain ⟨replies, fs₁, hrun⟩ := hrun
      obtain ⟨r, rs, mid, hfirst, hthen, -⟩ := runMutations_cons_eq_ok hrun
      obtain ⟨r', mid', hfirst'⟩ := h.goes_through hcall hfirstSize ⟨r, mid, hfirst⟩
      obtain ⟨-, mids, mids', ids', htwins, hids', hnodup', -⟩ :=
        h.step_of_nodup hcall hids hnodup hfirst hfirst'
      obtain ⟨rs', fs₁', hthen'⟩ := ih htwins hrestSize hids' hnodup' ⟨rs, fs₁, hthen⟩
      exact ⟨r' :: rs', fs₁', runMutations_cons hfirst' hthen'⟩

/-- In every vault a history reaches, of two runs of mutations in a session
that differ in nothing but what they write as one record: if that is of one
size, the one goes through exactly if the other does; and if both do, of
whatever size, the replies are the same, and once the record is deleted so is
every byte of every file. -/
theorem deleted_item_leaves_no_trace {path : Path} {password : Bytes} {fs₀ : Fs} {st : VaultState}
    {calls : Calls β} (h : History platform path password fs₀ st calls)
    (hsession : session ∈ st.sessions) {ops ops' : List (Env × Mutation)}
    (hnodup : (drawnIds calls ++ newIds ops).Nodup)
    (hsame : List.Forall₂ (SameOperation id) ops ops') :
    (List.Forall₂ SameSize ops ops' →
        ((∃ replies fs, runMutations platform session ops st.fs = (.ok replies, fs))
          ↔ ∃ replies fs, runMutations platform session ops' st.fs = (.ok replies, fs)))
      ∧ ∀ replies replies' fs fs', runMutations platform session ops st.fs = (.ok replies, fs) →
        runMutations platform session ops' st.fs = (.ok replies', fs') →
        replies = replies' ∧ ((∃ env, (env, Mutation.delete id) ∈ ops) → fs = fs') := by
  obtain ⟨v, m, bytes, -, hreached⟩ := h.reached (List.nodup_append.mp hnodup).1
  obtain rfl := hreached.sessions session hsession
  obtain ⟨records, himage, hrecords⟩ := hreached.stored
  obtain ⟨loaded, hload, hloaded⟩ : ∃ loaded, loadVaultBytes platform (v.session path) bytes
      = .ok loaded ∧ LoadedFrom v records bytes loaded := himage.loadVaultBytes rfl
  have htable : (tableAt platform (v.session path) st.fs).1 = .ok records :=
    tableAt_eq_ok.mpr ⟨bytes, loaded, hreached.file, hload, hloaded.entries_for_loaded⟩
  have hids : ∀ x ∈ records.map PendingRecord.recordId, x ∈ drawnIds calls := by
    rw [map_recordId hrecords]
    exact hreached.keys_drawn
  have htwins := Twins.refl id htable
  refine ⟨fun hsize => ⟨htwins.run_goes_through hsame hsize hids hnodup, ?_⟩, ?_⟩
  · have hsame' : List.Forall₂ (SameOperation id) ops' ops :=
      hsame.flip.imp fun _ _ => SameOperation.symm
    have hsize' : List.Forall₂ SameSize ops' ops := hsize.flip.imp fun _ _ => Eq.symm
    exact htwins.run_goes_through hsame' hsize' hids (newIds_congr hsame ▸ hnodup)
  · intro replies replies' fs fs' hrun hrun'
    obtain ⟨hreplies, after, after', hafter, hburied⟩ := htwins.run hsame hids hnodup hrun hrun'
    exact ⟨hreplies, fun hdelete => hafter.eq_of_buried (hburied (.inr hdelete))⟩

-- =============================================================== inhabited

/-- An item is added and deleted again. -/
def addThenDelete (item : PlainItem) : List (Env × Mutation) :=
  [(sampleEnv, .add item), (sampleEnv, .delete zeroId)]

/-- Both go through in an empty vault. -/
theorem runMutations_addThenDelete {v : VaultIdentity Platform.transparent} {bytes : Bytes}
    {item : PlainItem} (hoff : AgreesOff samplePath noFiles fs) (hfs : fs samplePath = some bytes)
    (hstored : Stored v TombstoneMap.empty bytes) (hlen : storedFrameLen (some item) < 2 ^ 32) :
    ∃ fs', runMutations Platform.transparent (v.session samplePath) (addThenDelete item) fs
      = (.ok [some zeroId, none], fs') := by
  have hfile : fs (v.session samplePath).path = some bytes := hfs
  have hnew : (Mutation.add item).Fresh sampleEnv.draws (TombstoneMap.empty : ItemMap) :=
    fun _ _ => List.not_mem_nil
  have hadds : (Mutation.add item).Commits sampleEnv (v.session samplePath).path fs
      TombstoneMap.empty :=
    ⟨⟨drawsWith_forAdd zeroId zeroId, hlen, by decide⟩, sampleEnv_persists hoff⟩
  obtain ⟨out, hadd, hstored'⟩ := hstored.run_of_commits hfile rfl hnew hadds
  have hlive : ((Mutation.add item).apply sampleEnv.draws TombstoneMap.empty).status zeroId
      = some (some item) := by
    show (TombstoneMap.insert TombstoneMap.empty zeroId item).status zeroId = _
    have hempty : zeroId ∉ (TombstoneMap.empty : ItemMap).keys := List.not_mem_nil
    rw [TombstoneMap.insert_of_not_mem _ hempty, TombstoneMap.status_push, if_pos rfl]
  have hdeletes : (Mutation.delete zeroId).Commits sampleEnv (v.session samplePath).path
      (fs.set (v.session samplePath).path (some out))
      ((Mutation.add item).apply sampleEnv.draws TombstoneMap.empty) :=
    ⟨⟨(drawsWith_forAdd zeroId zeroId).toForFrame, item, hlive⟩,
      (Env.persists_set _).mpr (sampleEnv_persists hoff)⟩
  have hold : (Mutation.delete zeroId).Fresh sampleEnv.draws
      ((Mutation.add item).apply sampleEnv.draws TombstoneMap.empty) := trivial
  obtain ⟨out', hdelete, -⟩ := hstored'.run_of_commits (Fs.set_self ..) rfl hold hdeletes
  exact ⟨_, runMutations_cons hadd (runMutations_cons hdelete rfl)⟩

/-- Two secrets: the second goes through with the first, and leaves what the
first leaves. -/
theorem deleted_item_leaves_no_trace_of_secrets :
    ∃ (session : UnlockedVault) (fs₀ fs : Fs),
      runMutations Platform.transparent session (addThenDelete (noteOf [1, 2, 3])) fs₀
        = (.ok [some zeroId, none], fs)
      ∧ runMutations Platform.transparent session (addThenDelete (noteOf [4, 5, 6])) fs₀
        = (.ok [some zeroId, none], fs) := by
  obtain ⟨st, v, bytes, hhistory, hsession, hoff, -, hfs, hstored⟩ := @sample_reached Unit
  have hlen : storedFrameLen (some (noteOf [1, 2, 3])) < 2 ^ 32 := by
    rw [storedFrameLen_noteOf]
    decide
  obtain ⟨fs, hrun⟩ := runMutations_addThenDelete hoff hfs hstored hlen
  have hsame : List.Forall₂ (SameOperation zeroId) (addThenDelete (noteOf [1, 2, 3]))
      (addThenDelete (noteOf [4, 5, 6])) :=
    .cons ⟨rfl, .add _ _ rfl⟩ (.cons ⟨rfl, .same _⟩ .nil)
  have hsize : List.Forall₂ SameSize (addThenDelete (noteOf [1, 2, 3]))
      (addThenDelete (noteOf [4, 5, 6])) := by
    refine .cons ?_ (.cons rfl .nil)
    show storedFrameLen (some (noteOf [1, 2, 3])) = storedFrameLen (some (noteOf [4, 5, 6]))
    rw [storedFrameLen_noteOf, storedFrameLen_noteOf]
    rfl
  have hnodup : (drawnIds ([] : Calls Unit) ++ newIds (addThenDelete (noteOf [1, 2, 3]))).Nodup :=
    List.nodup_singleton zeroId
  obtain ⟨hboth, hequal⟩ := deleted_item_leaves_no_trace hhistory hsession hnodup hsame
  obtain ⟨replies', fs', hrun'⟩ := (hboth hsize).mp ⟨_, fs, hrun⟩
  obtain ⟨rfl, hfiles⟩ := hequal _ _ _ _ hrun hrun'
  obtain rfl := hfiles ⟨sampleEnv, List.mem_cons_of_mem _ (List.mem_singleton_self _)⟩
  exact ⟨v.session samplePath, st.fs, fs, hrun, hrun'⟩

end MeissnerSeal
