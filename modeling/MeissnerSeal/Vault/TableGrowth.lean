/-
The record table of an open vault, from call to call.

# One step

Every mutation rebuilds the table from what it has loaded. Whatever becomes
of the call, the records it does not name are in the new table as they were,
frame and all; the one it names keeps its place and its id, and an item may
have become a tombstone (`Mutation.tableAt_run`). An import names no record
that was there before it: what it rolls back it has added itself
(`importLoop_grows`).

# A run

So over any run of calls in one session the table only grows
(`table_monotone`): ids come in at the end and stay, a tombstone stays one,
and a second `delete` finds it and writes nothing.
-/
import MeissnerSeal.Lib.GrowingList
import MeissnerSeal.Vault.Reload
import MeissnerSeal.Vault.Provenance
import MeissnerSeal.Vault.Refinement

namespace MeissnerSeal

open ByteCodec ExceptRules GrowingList

variable {β : Type} {platform : Platform} {session : UnlockedVault} {fs : Fs} {bytes : Bytes}
  {env : Env} {call : Mutation} {records before after : List PendingRecord}

-- ======================================================= the table of a file

/-- The records of a session's vault, as `stage_records` keeps them. -/
def tableAt (platform : Platform) (session : UnlockedVault) : FsM (List PendingRecord) := do
  let loaded ← loadVault platform IoFaults.none session
  FsM.lift (stageRecords loaded none none)

/-- With nothing to stage the records are those that were loaded. -/
theorem stageRecords_none {loaded : LoadedVault}
    (h : List.Forall₂ (EntryFor loaded.bytes) loaded.entries records)
    (hmax : loaded.bytes.length ≤ usizeMax) : stageRecords loaded none none = .ok records := by
  have hposition : ∀ p, (none : Option Nat) = some p → p < 0 ∨ 0 + loaded.entries.length ≤ p :=
    fun _ hp => nomatch hp
  unfold stageRecords
  rw [stageEntries_of_not_mem h hmax hposition]
  rfl

/-- The table lists what the entries of the file stand for. -/
theorem tableAt_eq_ok :
    (tableAt platform session fs).1 = .ok records
      ↔ ∃ bytes loaded, fs session.path = some bytes
        ∧ loadVaultBytes platform session bytes = .ok loaded
        ∧ List.Forall₂ (EntryFor loaded.bytes) loaded.entries records := by
  simp only [tableAt, loadVault, FsM.bind_apply]
  cases hfs : fs session.path with
  | none =>
      have hread : readFile IoFaults.none.read session.path fs = (.error .io, fs) := by
        unfold readFile
        rw [hfs]
        rfl
      simp only [hread, reduceCtorEq, false_and, exists_false]
  | some bytes =>
      have hread : readFile IoFaults.none.read session.path fs = (.ok bytes, fs) :=
        readFile_of_some hfs _
      simp only [hread, FsM.lift, Option.some.injEq]
      cases hload : loadVaultBytes platform session bytes with
      | error e =>
          constructor
          · intro h
            cases h
          · rintro ⟨bytes', loaded, rfl, hload', -⟩
            rw [hload] at hload'
            cases hload'
      | ok loaded =>
          obtain ⟨headerBytes, wrkBytes, headerLen, wrkLen, hfound⟩ := found_of_load hload
          obtain ⟨listed, hlisted, -, -⟩ := hfound.exists_records
          simp only [stageRecords_none hlisted (length_le_of_load hload)]
          constructor
          · intro h
            obtain rfl := Except.ok.inj h
            exact ⟨bytes, loaded, rfl, hload, hlisted⟩
          · rintro ⟨bytes', loaded', rfl, hload', hlisted'⟩
            obtain rfl := Except.ok.inj (hload.symm.trans hload')
            exact congrArg Except.ok (entryFor_unique hlisted hlisted')

/-- The table depends on the one file. -/
theorem tableAt_congr {fs' : Fs} (h : fs' session.path = fs session.path) :
    (tableAt platform session fs').1 = .ok records ↔ (tableAt platform session fs).1
      = .ok records := by
  rw [tableAt_eq_ok, tableAt_eq_ok, h]

/-- The records have the ids of the entries they were loaded from. -/
theorem map_recordId_of_entryFor {entries : List RecordTableEntry}
    (h : List.Forall₂ (EntryFor bytes) entries records) :
    records.map PendingRecord.recordId = entries.map RecordTableEntry.recordId := by
  induction h with
  | nil => rfl
  | cons hentry _ ih => rw [List.map_cons, List.map_cons, ih, hentry.recordId]

/-- No id stands in a table twice. -/
theorem nodup_of_tableAt (h : (tableAt platform session fs).1 = .ok records) :
    (records.map PendingRecord.recordId).Nodup := by
  obtain ⟨bytes, loaded, -, hload, hrecords⟩ := tableAt_eq_ok.mp h
  obtain ⟨headerBytes, wrkBytes, headerLen, wrkLen, hfound⟩ := found_of_load hload
  rw [map_recordId_of_entryFor hrecords]
  exact hfound.nodup

-- ============================================================= one mutation

/-- What a record may become: it keeps its id, and an item may
become a tombstone. -/
structure Ages (old new : PendingRecord) : Prop where
  recordId : new.recordId = old.recordId
  recordKind : new.recordKind = old.recordKind
    ∨ old.recordKind = recordKindItem ∧ new.recordKind = recordKindTombstone

theorem Ages.refl (record : PendingRecord) : Ages record record := ⟨rfl, .inl rfl⟩

/-- A record may age once, and then no more. -/
theorem Ages.trans {a b c : PendingRecord} (h : Ages a b) (h' : Ages b c) : Ages a c := by
  refine ⟨h'.recordId.trans h.recordId, ?_⟩
  obtain hsame | ⟨hitem, hdead⟩ := h.recordKind
  · rw [← hsame]
    exact h'.recordKind
  · obtain hsame' | ⟨hitem', -⟩ := h'.recordKind
    · exact .inr ⟨hitem, hsame'.trans hdead⟩
    · rw [hdead] at hitem'
      exact absurd hitem' (by decide)

/-- What a record may become while the call at hand names `named`. -/
def AgesBut (named : Option ItemId) (old new : PendingRecord) : Prop :=
  Ages old new ∧ (named ≠ some old.recordId → new = old)

/-- A record that is left alone has not aged. -/
theorem AgesBut.refl (named : Option ItemId) (record : PendingRecord) :
    AgesBut named record record := ⟨Ages.refl record, fun _ => rfl⟩

/-- The id of the record a mutation replaces. -/
def Mutation.named : Mutation → Option ItemId
  | .add _ => none
  | .update id _ => some id
  | .delete id => some id

/-- The id a mutation gives to a new record. -/
def Mutation.newId (draws : Draws) : Mutation → Option ItemId
  | .add _ => draws.recordId
  | .update _ _ => none
  | .delete _ => none

/-- What an `update` or a `delete` builds has the id of the record it names,
and is an item or a tombstone. -/
theorem Mutation.Builds.ages {draws : Draws} {header : VaultHeader} {pending old : PendingRecord}
    {id : ItemId} (h : call.Builds platform draws session header pending)
    (hnamed : call.named = some id) (hid : old.recordId = id)
    (hkind : old.recordKind = recordKindItem) : AgesBut call.named old pending := by
  refine ⟨?_, fun hne => absurd (hid ▸ hnamed) hne⟩
  cases call with
  | add item => cases hnamed
  | update id' item =>
      obtain rfl := Option.some.inj hnamed
      exact ⟨h.1.trans hid.symm, .inl (h.2.recordKind.trans hkind.symm)⟩
  | delete id' =>
      obtain rfl := Option.some.inj hnamed
      exact ⟨h.1.trans hid.symm, .inr ⟨hkind, h.2.recordKind⟩⟩

/-- The search for a live item finds a record of that id that is one. -/
theorem record_of_liveItemPosition {loaded : LoadedVault} {id : ItemId} {position : Nat}
    {old : PendingRecord} (hrecords : List.Forall₂ (EntryFor bytes) loaded.entries records)
    (hposition : liveItemPosition loaded id = some position)
    (hold : records[position]? = some old) :
    old.recordId = id ∧ old.recordKind = recordKindItem := by
  rw [liveItemPosition, List.findIdx?_eq_some_iff_getElem] at hposition
  obtain ⟨hlt, hfound, -⟩ := hposition
  rw [decide_eq_true_eq] at hfound
  obtain ⟨hlt', hget⟩ := List.getElem?_eq_some_iff.mp hold
  have hfor : EntryFor bytes loaded.entries[position] old := by
    rw [← hget]
    exact hrecords.get hlt hlt'
  exact ⟨hfor.recordId.symm.trans hfound.1, hfor.recordKind.symm.trans hfound.2⟩

/-- Putting a new record in its place changes the record it replaces
and no other. -/
theorem Mutation.Builds.grows {draws : Draws} {header : VaultHeader} {pending : PendingRecord}
    {loaded : LoadedVault} {staged : List PendingRecord}
    (h : call.Builds platform draws session header pending)
    (hrecords : List.Forall₂ (EntryFor bytes) loaded.entries records)
    (hplace : call.place loaded records pending = some staged) :
    Grows (AgesBut call.named) records staged := by
  have hset : ∀ id, call.named = some id →
      ((liveItemPosition loaded id).map fun position => records.set position pending)
        = some staged →
      Grows (AgesBut call.named) records staged := by
    intro id hnamed hstaged
    obtain ⟨position, hposition, rfl⟩ := Option.map_eq_some_iff.mp hstaged
    refine grows_set (AgesBut.refl _) fun old hold => ?_
    obtain ⟨hid, hkind⟩ := record_of_liveItemPosition hrecords hposition hold
    exact h.ages hnamed hid hkind
  cases call with
  | add item =>
      obtain rfl := Option.some.inj hplace
      exact grows_append (AgesBut.refl _) _ _
  | update id item => exact hset id rfl hplace
  | delete id => exact hset id rfl hplace

/-- A mutation brings in no id but the one that an `add` draws. -/
theorem Mutation.Builds.mem_ids {draws : Draws} {header : VaultHeader} {pending : PendingRecord}
    {loaded : LoadedVault} {staged : List PendingRecord}
    (h : call.Builds platform draws session header pending)
    (hrecords : List.Forall₂ (EntryFor bytes) loaded.entries records)
    (hplace : call.place loaded records pending = some staged) :
    ∀ id ∈ staged.map PendingRecord.recordId,
      id ∈ records.map PendingRecord.recordId ∨ call.newId draws = some id := by
  have hids := map_recordId_of_entryFor hrecords
  have hset : ∀ id, pending.recordId = id →
      ((liveItemPosition loaded id).map fun position => records.set position pending)
        = some staged →
      staged.map PendingRecord.recordId = records.map PendingRecord.recordId := by
    rintro id rfl hstaged
    obtain ⟨position, hposition, rfl⟩ := Option.map_eq_some_iff.mp hstaged
    rw [map_recordId_set hids hposition, hids]
  cases call with
  | add item =>
      obtain rfl := Option.some.inj hplace
      intro id hid
      rw [List.map_append, List.mem_append, List.map_singleton, List.mem_singleton] at hid
      exact hid.imp_right fun hid => by rw [hid]; exact h.1
  | update id item =>
      rw [hset id h.1 hplace]
      exact fun id hid => .inl hid
  | delete id =>
      rw [hset id h.1 hplace]
      exact fun id hid => .inl hid

/-- What a mutation writes, where its new id is not in the table. -/
theorem Mutation.tableAt_written {value : Option ItemId} {out : Bytes} {seed : U8Array 16}
    {draws : Draws} {fs' : Fs} (hfs : fs session.path = some bytes)
    (hbefore : (tableAt platform session fs).1 = .ok before)
    (hfresh : ∀ id, call.newId draws = some id → id ∉ before.map PendingRecord.recordId)
    (hplan : call.plan platform draws session bytes = .ok ⟨value, some (out, seed)⟩)
    (hfs' : fs' session.path = some out) :
    value = call.reply draws ∧ ∃ after pending, (tableAt platform session fs').1 = .ok after
      ∧ Grows (AgesBut call.named) before after
      ∧ (∀ id ∈ after.map PendingRecord.recordId,
        id ∈ before.map PendingRecord.recordId ∨ call.newId draws = some id)
      ∧ pending ∈ after ∧ ∃ header, call.Builds platform draws session header pending := by
  obtain ⟨bytes', loaded, hfile, hload, hrecords⟩ := tableAt_eq_ok.mp hbefore
  obtain rfl := Option.some.inj (hfile.symm.trans hfs)
  obtain ⟨headerBytes, wrkBytes, headerLen, wrkLen, hfound⟩ := found_of_load hload
  obtain ⟨hvalue, -, pending, staged, hbuilds, hplace, hwrite⟩ :=
    (Mutation.plan_writes_iff hload hrecords).mp hplan
  have hids := map_recordId_of_entryFor hrecords
  have hnew : call.FreshIn draws loaded := by
    rw [hids] at hfresh
    cases call with
    | add item => exact hfresh
    | update id item => trivial
    | delete id => trivial
  have hnodup := (hbuilds.nodup_iff hids hfound.nodup hplace).mpr hnew
  obtain ⟨reloaded, hreload, hreloads⟩ := hfound.exists_reload hwrite hnodup
  refine ⟨hvalue, staged, pending, tableAt_eq_ok.mpr ⟨out, reloaded, hfs', hreload, ?_⟩,
    hbuilds.grows hrecords hplace, hbuilds.mem_ids hrecords hplace,
    pending_mem_of_place hplace hrecords.length_eq, _, hbuilds⟩
  rw [hreloads.bytes_eq]
  exact hreloads.records

/-- Whatever becomes of a mutation, the table it leaves is the one it found
but for the record it names and a new one at the end. -/
theorem Mutation.tableAt_run (hbefore : (tableAt platform session fs).1 = .ok before)
    (hfresh : ∀ id, call.newId env.draws = some id → id ∉ before.map PendingRecord.recordId) :
    ∃ after, (tableAt platform session (call.run platform env session fs).2).1 = .ok after
      ∧ Grows (AgesBut call.named) before after
      ∧ ∀ id ∈ after.map PendingRecord.recordId,
        id ∈ before.map PendingRecord.recordId ∨ call.newId env.draws = some id := by
  obtain ⟨bytes, loaded, hfs, -⟩ := tableAt_eq_ok.mp hbefore
  rw [Mutation.run_eq_mutate]
  obtain hkeep | ⟨value, out, seed, hplan, hwritten⟩ := mutate_file hfs
  · refine ⟨before, (tableAt_congr (hkeep.trans hfs.symm)).mpr hbefore,
      Grows.refl (AgesBut.refl _) _, fun id hid => .inl hid⟩
  · obtain ⟨-, after, pending, hafter, hgrows, hids, -⟩ :=
      Mutation.tableAt_written hfs hbefore hfresh hplan hwritten
    exact ⟨after, hafter, hgrows, hids⟩

-- ============================================================ a second delete

/-- A `delete` that returns `Ok` leaves a tombstone. -/
theorem tombstone_of_delete {id : ItemId} {value : Option ItemId}
    (hbefore : (tableAt platform session fs).1 = .ok before)
    (hok : ((Mutation.delete id).run platform env session fs).1 = .ok value) :
    ∃ after, (tableAt platform session ((Mutation.delete id).run platform env session fs).2).1
        = .ok after
      ∧ ∃ record ∈ after, record.recordId = id ∧ record.recordKind = recordKindTombstone := by
  obtain ⟨bytes, loaded, hfs, hload, hrecords⟩ := tableAt_eq_ok.mp hbefore
  rcases hrun : (Mutation.delete id).run platform env session fs with ⟨r, fs'⟩
  obtain rfl : r = .ok value := by
    rw [hrun] at hok
    exact hok
  rw [Mutation.run_eq_mutate] at hrun
  obtain ⟨e, fs'', hfail, -⟩ | ⟨value', hplan, hnoop⟩ | ⟨value', out, seed, r, fs'', hplan, hwrite,
    hwritten, -⟩ := mutate_outcome hfs
  · rw [hrun] at hfail
    cases hfail
  · -- the tombstone is there already
    rw [hrun, Prod.mk.injEq] at hnoop
    obtain ⟨-, rfl⟩ := hnoop
    obtain ⟨id', loaded', hcall, hload', -, hany⟩ := Mutation.of_plan_none hplan
    injection hcall with hid
    obtain rfl := Except.ok.inj (hload.symm.trans hload')
    obtain ⟨entry, hentry, hdead⟩ := List.any_eq_true.mp hany
    rw [decide_eq_true_eq, ← hid] at hdead
    obtain ⟨record, hrecord, hfor⟩ := hrecords.exists_of_mem hentry
    exact ⟨before, hbefore, record, hrecord, hfor.recordId.symm.trans hdead.1,
      hfor.recordKind.symm.trans hdead.2⟩
  · rw [hrun, Prod.mk.injEq] at hwrite
    obtain ⟨-, rfl⟩ := hwrite
    have hfresh : ∀ id', (Mutation.delete id).newId env.draws = some id' →
        id' ∉ before.map PendingRecord.recordId := fun _ hnew => nomatch hnew
    obtain ⟨-, after, pending, hafter, -, -, hmem, header, hid, hdead⟩ :=
      Mutation.tableAt_written hfs hbefore hfresh hplan hwritten
    exact ⟨after, hafter, pending, hmem, hid, hdead.recordKind⟩

/-- A `delete` of a tombstone touches nothing, whatever it returns. -/
theorem delete_of_tombstone {record : PendingRecord}
    (hrecords : (tableAt platform session fs).1 = .ok records) (hmem : record ∈ records)
    (hdead : record.recordKind = recordKindTombstone) :
    ((Mutation.delete record.recordId).run platform env session fs).2 = fs := by
  have hnodup := nodup_of_tableAt hrecords
  obtain ⟨bytes, loaded, hfs, hload, hlisted⟩ := tableAt_eq_ok.mp hrecords
  have hlive : liveItemPosition loaded record.recordId = none := by
    unfold liveItemPosition
    rw [List.findIdx?_eq_none_iff]
    intro entry hentry
    rw [decide_eq_false_iff_not]
    rintro ⟨hid, hkind⟩
    obtain ⟨other, hother, hfor⟩ := hlisted.exists_of_mem hentry
    obtain rfl : other = record :=
      List.inj_on_of_nodup_map hnodup hother hmem (hfor.recordId.symm.trans hid)
    rw [← hfor.recordKind, hkind] at hdead
    exact absurd hdead (by decide)
  have hany : (loaded.entries.any fun entry =>
      entry.recordId = record.recordId ∧ entry.recordKind = recordKindTombstone) = true := by
    obtain ⟨entry, hentry, hfor⟩ := hlisted.flip.exists_of_mem hmem
    refine List.any_eq_true.mpr ⟨entry, hentry, decide_eq_true ⟨hfor.recordId, ?_⟩⟩
    exact hfor.recordKind.trans hdead
  have hplan : (Mutation.delete record.recordId).plan platform env.draws session bytes
      = .ok ⟨none, none⟩ := by
    simp only [Mutation.plan, planDelete, hload, ok_bind, hlive, hany, if_true, pure_eq_ok]
  rw [Mutation.run_eq_mutate]
  cases hread : env.io.read with
  | true => rw [mutate_of_read_fault hread]
  | false => rw [mutate_of_noop hfs hread hplan]

-- ================================================================= an import

/-- A table that has grown from `before` with none of its records replaced,
and whose ids are known. -/
def GrownFrom (platform : Platform) (session : UnlockedVault) (before : List PendingRecord)
    (known : ItemId → Prop) (fs : Fs) : Prop :=
  ∃ after, (tableAt platform session fs).1 = .ok after ∧ Grows (AgesBut none) before after
    ∧ ∀ id ∈ after.map PendingRecord.recordId, known id

/-- A mutation that names none of the old records lets the table grow on. -/
theorem GrownFrom.run {known known' : ItemId → Prop}
    (h : GrownFrom platform session before known fs)
    (hnamed : ∀ id, call.named = some id → id ∉ before.map PendingRecord.recordId)
    (hfresh : ∀ id, call.newId env.draws = some id → ¬ known id)
    (hold : ∀ id, known id → known' id) (hnew : ∀ id, call.newId env.draws = some id → known' id) :
    GrownFrom platform session before known' (call.run platform env session fs).2 := by
  obtain ⟨between, hbetween, hgrows, hknown⟩ := h
  obtain ⟨after, hafter, hgrows', hids⟩ := Mutation.tableAt_run hbetween fun id hid hmem =>
    hfresh id hid (hknown id hmem)
  refine ⟨after, hafter, hgrows.trans hgrows' ?_, fun id hid => ?_⟩
  · intro a ha b c hab hbc
    obtain rfl := hab.2 (by simp)
    refine ⟨hbc.1, fun _ => hbc.2 fun hname => ?_⟩
    exact hnamed _ hname (List.mem_map_of_mem ha)
  · obtain hmem | hid := hids id hid
    · exact hold id (hknown id hmem)
    · exact hnew id hid

section Import

variable {importEnv : ImportEnv} {known : ItemId → Prop}

/-- A rollback deletes what is not in `before`. -/
theorem rollback_grows (ids : List ItemId)
    (hids : ∀ id ∈ ids, id ∉ before.map PendingRecord.recordId) : ∀ {i : Nat} {fs : Fs},
      GrownFrom platform session before known fs →
      GrownFrom platform session before known (rollback platform importEnv session i ids fs).2 := by
  induction ids with
  | nil => exact fun h => h
  | cons id ids ih =>
      intro i fs h
      obtain ⟨hid, hrest⟩ := List.forall_mem_cons.mp hids
      have hnamed : ∀ id', (Mutation.delete id).named = some id' →
          id' ∉ before.map PendingRecord.recordId := by
        intro id' heq
        rw [← Option.some.inj heq]
        exact hid
      have hstep : GrownFrom platform session before known
          ((Mutation.delete id).run platform (importEnv.deletes i) session fs).2 :=
        h.run hnamed (fun _ hnew => nomatch hnew) (fun _ hknown => hknown)
          fun _ hnew => nomatch hnew
      rw [Mutation.run_delete_snd] at hstep
      rcases hdelete : MeissnerSeal.delete platform (importEnv.deletes i)
        session id fs with ⟨r, fs'⟩
      rw [hdelete] at hstep
      simp only [MeissnerSeal.rollback, hdelete]
      cases r with
      | ok u => exact ih hrest hstep
      | error e =>
          cases e with
          | panic => exact hstep
          | _ => exact hstep

/-- An `add` that returns `Ok` returns the id it has drawn. -/
theorem recordId_of_add {item : PlainItem} {id : ItemId} {fs' : Fs}
    (hbefore : (tableAt platform session fs).1 = .ok before)
    (hadd : add platform env session item fs = (.ok id, fs')) : env.draws.recordId = some id := by
  obtain ⟨bytes, loaded, hfs, hload, hrecords⟩ := tableAt_eq_ok.mp hbefore
  have hrun : mutate env.io session.path ((Mutation.add item).plan platform env.draws session) fs
      = (.ok (some id), fs') := by
    rw [← Mutation.run_eq_mutate, Mutation.run]
    simp only [FsM.bind_apply, hadd, FsM.pure_apply]
  obtain ⟨e, fs'', hfail, -⟩ | ⟨value, hplan, -⟩ | ⟨value, out, seed, r, fs'', hplan, hwrite, -,
    hvalue⟩ := mutate_outcome hfs
  · rw [hrun] at hfail
    cases hfail
  · obtain ⟨id', loaded', hcall, -⟩ := Mutation.of_plan_none hplan
    cases hcall
  · rw [hrun, Prod.mk.injEq] at hwrite
    obtain ⟨hreply, -⟩ := (Mutation.plan_writes_iff hload hrecords).mp hplan
    exact hreply.symm.trans (hvalue _ hwrite.1.symm).symm

/-- The ids an import may have put in a table after `n` adds. -/
def ImportEnv.Known (env : ImportEnv) (ids : List ItemId) (n : Nat) (id : ItemId) : Prop :=
  id ∈ ids ∨ ∃ i < n, env.idAt i = some id

/-- What was known before a step of the import is known after it. -/
theorem ImportEnv.Known.mono {ids : List ItemId} {n n' : Nat} {id : ItemId} (hn : n ≤ n')
    (h : importEnv.Known ids n id) : importEnv.Known ids n' id := by
  obtain hold | ⟨i, hi, hid⟩ := h
  · exact .inl hold
  · exact .inr ⟨i, Nat.lt_of_lt_of_le hi hn, hid⟩

/-- An import replaces no record that was there before it,
whatever fails in it. -/
theorem importLoop_grows {ids : List ItemId}
    (hbefore : ∀ id ∈ before.map PendingRecord.recordId, id ∈ ids) (items : List PlainItem) :
    ∀ {importedIds : List ItemId} {fs : Fs},
      GrownFrom platform session before (importEnv.Known ids importedIds.length) fs →
      (∀ id ∈ importedIds, id ∉ before.map PendingRecord.recordId) →
      (∀ i < importedIds.length + items.length, ∀ id, importEnv.idAt i = some id →
        id ∉ ids ∧ ∀ j < i, importEnv.idAt j ≠ some id) →
      GrownFrom platform session before
        (importEnv.Known ids (importedIds.length + items.length))
        (importLoop platform importEnv session importedIds items fs).2 := by
  induction items with
  | nil => exact fun h _ _ => h
  | cons item items ih =>
      intro importedIds fs h himported hfresh
      obtain ⟨between, hbetween, -⟩ := id h
      have hlt : importedIds.length < importedIds.length + (item :: items).length :=
        Nat.lt_add_of_pos_right (Nat.zero_lt_succ _)
      have hdrawn := hfresh _ hlt
      -- the next id is none of the table, nor one this import has drawn
      have hnew : ∀ id, (Mutation.add item).newId (importEnv.adds importedIds.length).draws
          = some id → ¬ importEnv.Known ids importedIds.length id := by
        rintro id hid (hold | ⟨j, hj, hjd⟩)
        · exact (hdrawn id hid).1 hold
        · exact (hdrawn id hid).2 j hj hjd
      have hstep : GrownFrom platform session before
          (importEnv.Known ids (importedIds.length + 1))
          ((Mutation.add item).run platform (importEnv.adds importedIds.length) session fs).2 :=
        h.run (fun _ hnamed => nomatch hnamed) hnew (fun _ hknown => hknown.mono (Nat.le_succ _))
          fun id hid => .inr ⟨_, Nat.lt_succ_self _, hid⟩
      rw [Mutation.run_add_snd] at hstep
      have hgrown : ∀ {fs'}, GrownFrom platform session before
          (importEnv.Known ids (importedIds.length + 1)) fs' →
          GrownFrom platform session before
            (importEnv.Known ids (importedIds.length + (item :: items).length)) fs' := by
        rintro fs' ⟨after, hafter, hgrows, hknown⟩
        refine ⟨after, hafter, hgrows, fun id hid => (hknown id hid).mono ?_⟩
        exact hlt
      rcases hadd : MeissnerSeal.add platform (importEnv.adds importedIds.length) session item fs
        with ⟨r, fs'⟩
      rw [hadd] at hstep
      simp only [MeissnerSeal.importLoop, hadd]
      cases r with
      | ok id =>
          have hid : importEnv.idAt importedIds.length = some id := recordId_of_add hbetween hadd
          have hlen : (importedIds ++ [id]).length = importedIds.length + 1 := by simp
          have htotal : (importedIds ++ [id]).length + items.length
              = importedIds.length + (item :: items).length := by
            rw [hlen, List.length_cons]
            omega
          rw [← htotal]
          refine ih (hlen ▸ hstep) (fun id' hid' => ?_) (htotal ▸ hfresh)
          obtain hold | hlast := List.mem_append.mp hid'
          · exact himported id' hold
          · rw [List.mem_singleton.mp hlast]
            exact fun hmem => (hdrawn id hid).1 (hbefore id hmem)
      | error e =>
          -- a failed add: the rollback deletes ids of its own alone
          have hback : GrownFrom platform session before
              (importEnv.Known ids (importedIds.length + 1))
              (MeissnerSeal.rollback platform importEnv session 0 importedIds fs').2 :=
            rollback_grows importedIds himported hstep
          rcases hrollback : MeissnerSeal.rollback platform importEnv session 0 importedIds fs'
            with ⟨rolled, fs''⟩
          rw [hrollback] at hback
          cases e with
          | panic => exact hgrown hstep
          | _ =>
              simp only [hrollback]
              cases rolled with
              | error e => exact hgrown hback
              | ok done =>
                  cases done with
                  | true => exact hgrown hback
                  | false => exact hgrown hback

end Import

-- =================================================================== a run

/-- Whatever becomes of a call, the records it is not about are in the table
as they were. -/
theorem StoreCall.tableAt_run {ids : List ItemId} (call : StoreCall β)
    (hbefore : (tableAt platform session fs).1 = .ok before)
    (hids : ∀ id ∈ before.map PendingRecord.recordId, id ∈ ids)
    (hnodup : (ids ++ call.drawn).Nodup) :
    ∃ after, (tableAt platform session (call.run platform session fs).2).1 = .ok after
      ∧ Grows (AgesBut call.target) before after
      ∧ ∀ id ∈ after.map PendingRecord.recordId, id ∈ ids ++ call.drawn := by
  have hold : ∀ id ∈ before.map PendingRecord.recordId, id ∈ ids ++ call.drawn :=
    fun id hid => List.mem_append_left _ (hids id hid)
  have hnone : ∀ {after}, Grows (AgesBut none) before after →
      Grows (AgesBut call.target) before after :=
    fun hgrows => hgrows.imp fun a _ b hab => ⟨hab.1, fun _ => hab.2 (by simp)⟩
  cases call with
  -- reading leaves the file
  | list io =>
      refine ⟨before, ?_, Grows.refl (AgesBut.refl _) _, hold⟩
      show (tableAt platform session (MeissnerSeal.list platform io session fs).2).1 = .ok before
      rw [list_fs]
      exact hbefore
  | withItem io id f =>
      refine ⟨before, ?_, Grows.refl (AgesBut.refl _) _, hold⟩
      show (tableAt platform session (MeissnerSeal.withItem platform io session id f fs).2).1
        = .ok before
      rw [withItem_fs]
      exact hbefore
  | mutate env call =>
      have hdrawn : ∀ id, call.newId env.draws = some id →
          id ∈ (StoreCall.mutate env call : StoreCall β).drawn := by
        intro id hid
        cases call with
        | add item => exact Option.mem_toList.mpr hid
        | update id' item => cases hid
        | delete id' => cases hid
      obtain ⟨after, hafter, hgrows, hnew⟩ := Mutation.tableAt_run hbefore fun id hid hmem =>
        (List.nodup_append.mp hnodup).2.2 id (hids id hmem) id (hdrawn id hid) rfl
      refine ⟨after, hafter, ?_, fun id hid => ?_⟩
      · cases call with
        | add item => exact hnone hgrows
        | update id item => exact hgrows
        | delete id => exact hgrows
      · obtain hmem | hid := hnew id hid
        · exact hold id hmem
        · exact List.mem_append_right _ (hdrawn id hid)
  -- a bundle that does not open changes nothing; else the loop grows the table
  | importBundle env bundle passphrase =>
      show ∃ after, (tableAt platform session
        (MeissnerSeal.importBundle platform env session bundle passphrase fs).2).1 = .ok after ∧ _
      simp only [MeissnerSeal.importBundle, FsM.bind_apply, FsM.lift]
      cases hitems : authenticate platform bundle passphrase with
      | error e => exact ⟨before, hbefore, Grows.refl (AgesBut.refl _) _, hold⟩
      | ok items =>
          have hle := authenticate_length_le hitems
          have hstart : GrownFrom platform session before
              (env.Known ids ([] : List ItemId).length) fs :=
            ⟨before, hbefore, Grows.refl (AgesBut.refl _) _, fun id hid => .inl (hids id hid)⟩
          have hzero : ([] : List ItemId).length + items.length = items.length := Nat.zero_add _
          have hfresh : ∀ i < items.length, ∀ id, env.idAt i = some id →
              id ∉ ids ∧ ∀ j < i, env.idAt j ≠ some id := ImportEnv.idAt_new hle hnodup
          obtain ⟨after, hafter, hgrows, hknown⟩ : GrownFrom platform session before
              (env.Known ids (([] : List ItemId).length + items.length))
              (importLoop platform env session [] items fs).2 :=
            importLoop_grows hids items hstart (fun _ hid => absurd hid List.not_mem_nil)
              fun i hi => hfresh i (hzero ▸ hi)
          refine ⟨after, hafter, hnone hgrows, fun id hid => ?_⟩
          obtain hmem | ⟨i, hi, hdraw⟩ := hknown id hid
          · exact List.mem_append_left _ hmem
          · rw [hzero] at hi
            refine List.mem_append_right _ (List.mem_filterMap.mpr ⟨i, ?_, hdraw⟩)
            exact List.mem_range.mpr (Nat.lt_of_lt_of_le hi hle)

/-- The file system after the first `i` calls of a run. -/
def fsAfter (platform : Platform) (session : UnlockedVault) (calls : List (StoreCall β)) (fs : Fs)
    (i : Nat) : Fs :=
  (calls.take i).foldl (fun fs call => (call.run platform session fs).2) fs

/-- The files after one call more. -/
theorem fsAfter_succ {calls : List (StoreCall β)} {call : StoreCall β} {i : Nat}
    (hcall : calls[i]? = some call) :
    fsAfter platform session calls fs (i + 1)
      = (call.run platform session (fsAfter platform session calls fs i)).2 := by
  unfold fsAfter
  rw [List.take_add_one, hcall, List.foldl_append]
  rfl

/-- After the last call nothing happens. -/
theorem fsAfter_of_none {calls : List (StoreCall β)} {i : Nat} (hnone : calls[i]? = none) :
    fsAfter platform session calls fs (i + 1) = fsAfter platform session calls fs i := by
  unfold fsAfter
  rw [List.take_add_one, hnone]
  simp

section Run

variable {ids : List ItemId} {calls : List (StoreCall β)}

/-- And what they drew. -/
theorem drawn_take_succ {call : StoreCall β} {i : Nat} (hcall : calls[i]? = some call) :
    (calls.take (i + 1)).flatMap StoreCall.drawn
      = (calls.take i).flatMap StoreCall.drawn ++ call.drawn := by
  rw [List.take_add_one, hcall, List.flatMap_append]
  simp

/-- One step of a run whose draws are distinct. -/
theorem fsAfter_grows {call : StoreCall β} {i : Nat} {table : List PendingRecord}
    (hnodup : (ids ++ calls.flatMap StoreCall.drawn).Nodup) (hcall : calls[i]? = some call)
    (htable : (tableAt platform session (fsAfter platform session calls fs i)).1 = .ok table)
    (hknown : ∀ id ∈ table.map PendingRecord.recordId,
      id ∈ ids ++ (calls.take i).flatMap StoreCall.drawn) :
    ∃ table', (tableAt platform session (fsAfter platform session calls fs (i + 1))).1 = .ok table'
      ∧ Grows (AgesBut call.target) table table'
      ∧ ∀ id ∈ table'.map PendingRecord.recordId,
        id ∈ ids ++ (calls.take (i + 1)).flatMap StoreCall.drawn := by
  rw [← List.take_append_drop (i + 1) calls, List.flatMap_append, ← List.append_assoc,
    drawn_take_succ hcall, ← List.append_assoc] at hnodup
  rw [fsAfter_succ hcall, drawn_take_succ hcall, ← List.append_assoc]
  exact call.tableAt_run htable hknown (List.nodup_append.mp hnodup).1

/-- Every state of a run has a table. -/
theorem exists_table (hbefore : (tableAt platform session fs).1 = .ok before)
    (hids : ∀ id ∈ before.map PendingRecord.recordId, id ∈ ids)
    (hnodup : (ids ++ calls.flatMap StoreCall.drawn).Nodup) (i : Nat) :
    ∃ table, (tableAt platform session (fsAfter platform session calls fs i)).1 = .ok table
      ∧ ∀ id ∈ table.map PendingRecord.recordId,
        id ∈ ids ++ (calls.take i).flatMap StoreCall.drawn := by
  induction i with
  | zero => exact ⟨before, hbefore, fun id hid => List.mem_append_left _ (hids id hid)⟩
  | succ i ih =>
      obtain ⟨table, htable, hknown⟩ := ih
      cases hcall : calls[i]? with
      | none =>
          rw [fsAfter_of_none hcall, List.take_add_one, hcall]
          exact ⟨table, htable, by simpa using hknown⟩
      | some call =>
          obtain ⟨table', htable', -, hknown'⟩ := fsAfter_grows hnodup hcall htable hknown
          exact ⟨table', htable', hknown'⟩

end Run

/-- From any vault a history reaches, over any run of calls in one session,
whatever fails in them: the table of every state lists distinct ids; later
tables begin with the ids of earlier ones, in their order; a record changes
its kind from item to tombstone at most; a step keeps every record it is not
about, frame and all; a `delete` that returns `Ok` leaves a tombstone; and
once an id has one, a `delete` of it leaves every file as it was. -/
theorem table_monotone {path : Path} {password : Bytes} {fs₀ : Fs} {st : VaultState}
    {history : Calls β} (hhistory : History platform path password fs₀ st history)
    (hsession : session ∈ st.sessions) (calls : List (StoreCall β))
    (hnodup : (drawnIds history ++ calls.flatMap StoreCall.drawn).Nodup) :
    ∃ table : Nat → List PendingRecord,
      (∀ i, (tableAt platform session (fsAfter platform session calls st.fs i)).1 = .ok (table i))
      ∧ (∀ i, ((table i).map PendingRecord.recordId).Nodup)
      ∧ (∀ i j, i ≤ j → (table i).map PendingRecord.recordId <+:
        (table j).map PendingRecord.recordId)
      ∧ (∀ i j, i ≤ j → ∀ old ∈ table i, ∀ new ∈ table j, new.recordId = old.recordId →
          new.recordKind = old.recordKind
            ∨ old.recordKind = recordKindItem ∧ new.recordKind = recordKindTombstone)
      ∧ (∀ i call, calls[i]? = some call → ∀ old ∈ table i, call.target ≠ some old.recordId →
          old ∈ table (i + 1))
      ∧ (∀ i env id value, calls[i]? = some (.mutate env (.delete id)) →
          (StoreCall.run platform session (.mutate env (.delete id) : StoreCall β)
            (fsAfter platform session calls st.fs i)).1 = .mutated (.ok value) →
          ∃ record ∈ table (i + 1), record.recordId = id ∧ record.recordKind = recordKindTombstone)
      ∧ ∀ i j env id, i ≤ j →
          (∃ record ∈ table i, record.recordId = id ∧ record.recordKind = recordKindTombstone) →
          calls[j]? = some (.mutate env (.delete id)) →
          fsAfter platform session calls st.fs
            (j + 1) = fsAfter platform session calls st.fs j := by
  obtain ⟨v, m, bytes, -, hreached⟩ := hhistory.reached (List.nodup_append.mp hnodup).1
  obtain rfl := hreached.sessions session hsession
  obtain ⟨records, himage, hrecords⟩ := hreached.stored
  obtain ⟨loaded, hload, hloaded⟩ : ∃ loaded, loadVaultBytes platform (v.session path) bytes
      = .ok loaded ∧ LoadedFrom v records bytes loaded := himage.loadVaultBytes rfl
  have hbefore : (tableAt platform (v.session path) st.fs).1 = .ok records :=
    tableAt_eq_ok.mpr ⟨bytes, loaded, hreached.file, hload, hloaded.entries_for_loaded⟩
  have hids : ∀ id ∈ records.map PendingRecord.recordId, id ∈ drawnIds history := by
    rw [map_recordId hrecords]
    exact hreached.keys_drawn
  choose table htable hknown using exists_table hbefore hids hnodup
  have hdistinct : ∀ i, ((table i).map PendingRecord.recordId).Nodup :=
    fun i => nodup_of_tableAt (htable i)
  have hstep : ∀ i call, calls[i]? = some call →
      Grows (AgesBut call.target) (table i) (table (i + 1)) := by
    intro i call hcall
    obtain ⟨table', htable', hgrows, -⟩ := fsAfter_grows hnodup hcall (htable i) (hknown i)
    rw [Except.ok.inj ((htable (i + 1)).symm.trans htable')]
    exact hgrows
  -- from one state to any later one
  have hgrows : ∀ i j, i ≤ j → Grows Ages (table i) (table j) := by
    intro i j hij
    induction j, hij using Nat.le_induction with
    | base => exact Grows.refl Ages.refl _
    | succ j _ ih =>
        refine ih.trans (S := Ages) ?_ fun a _ b c hab hbc => hab.trans hbc
        cases hcall : calls[j]? with
        | none =>
            have hsame := htable (j + 1)
            rw [fsAfter_of_none hcall, htable j] at hsame
            rw [← Except.ok.inj hsame]
            exact Grows.refl Ages.refl _
        | some call => exact (hstep j call hcall).imp fun a _ b hab => hab.1
  have hkeep : ∀ old new : PendingRecord, Ages old new → new.recordId = old.recordId :=
    fun old new h => h.recordId
  refine ⟨table, htable, hdistinct, fun i j hij => (hgrows i j hij).map_isPrefix hkeep,
    ?_, ?_, ?_, ?_⟩
  · intro i j hij old hold new hnew hid
    exact ((hgrows i j hij).of_key_eq hkeep (hdistinct j) hold hnew hid).recordKind
  · intro i call hcall old hold hother
    obtain ⟨new, hnew, -, hsame⟩ := (hstep i call hcall).exists_of_mem hold
    rw [← hsame hother]
    exact hnew
  · intro i env id value hcall hok
    have hnext := htable (i + 1)
    rw [fsAfter_succ hcall] at hnext
    injection hok with hok
    obtain ⟨after, hafter, hdeleted⟩ := tombstone_of_delete (htable i) hok
    rw [Except.ok.inj (hnext.symm.trans hafter)]
    exact hdeleted
  · rintro i j env id hij ⟨record, hmem, rfl, hdead⟩ hcall
    -- what is a tombstone once is one ever after
    obtain ⟨record', hmem', hages⟩ := (hgrows i j hij).exists_of_mem hmem
    have hdead' : record'.recordKind = recordKindTombstone := by
      obtain hsame | ⟨hitem, -⟩ := hages.recordKind
      · exact hsame.trans hdead
      · rw [hdead] at hitem
        exact absurd hitem (by decide)
    rw [fsAfter_succ hcall, ← hages.recordId]
    exact delete_of_tombstone (htable j) hmem' hdead'

/-- The only item of the sample vault is deleted twice. -/
theorem table_monotone_of_deletes :
    ∃ (st : VaultState) (session : UnlockedVault) (table : Nat → List PendingRecord),
      session ∈ st.sessions
      ∧ let calls : List (StoreCall Unit) :=
          [.mutate sampleEnv (.delete zeroId), .mutate sampleEnv (.delete zeroId)]
        (∀ i, (tableAt Platform.transparent session
          (fsAfter Platform.transparent session calls st.fs i)).1 = .ok (table i))
        ∧ (table 0).map PendingRecord.recordId <+: (table 2).map PendingRecord.recordId
        ∧ fsAfter Platform.transparent session calls st.fs 2
          = fsAfter Platform.transparent session calls st.fs 1 := by
  obtain ⟨st, v, m, bytes, hhistory, hsession, hoff, -, hfs, hstored, hlive⟩ :=
    @sample_added_history Unit _ (storedFrameLen_lt sampleItem_withinLimits)
  have hstatus : m.status zeroId = some (some sampleItem) :=
    TombstoneMap.mem_live.mp (hlive ▸ List.mem_singleton_self _)
  have hfile : st.fs (v.session samplePath).path = some bytes := hfs
  have hcommits : (Mutation.delete zeroId).Commits sampleEnv (v.session samplePath).path st.fs m :=
    ⟨⟨(drawsWith_forAdd zeroId zeroId).toForFrame, sampleItem, hstatus⟩, sampleEnv_persists hoff⟩
  have hfresh : (Mutation.delete zeroId).Fresh sampleEnv.draws m := trivial
  obtain ⟨out, hrun, -⟩ := hstored.run_of_commits hfile rfl hfresh hcommits
  have hreply : ((Mutation.delete zeroId).run Platform.transparent sampleEnv (v.session samplePath)
      st.fs).1 = .ok none := by
    rw [hrun]
    rfl
  obtain ⟨table, htable, -, hids, -, -, hdeleted, htwice⟩ := table_monotone hhistory hsession
    [.mutate sampleEnv (.delete zeroId), .mutate sampleEnv (.delete zeroId)] (by decide)
  refine ⟨st, v.session samplePath, table, hsession, htable, hids 0 2 (by decide),
    htwice 1 1 sampleEnv zeroId (Nat.le_refl 1) ?_ rfl⟩
  exact hdeleted 0 sampleEnv zeroId none rfl (congrArg Reply.mutated hreply)

end MeissnerSeal
