/-
Where the records of a reachable file come from.

# One call

A call that writes keeps the records it found and puts in the one it
built, so what holds of every record of a file survives a call whose own
record has it (`ListsOnly.run`).

# A history

Every record of a reachable file was built by a call of the history under
the vault's own header and wrapping key: an item by an `add`, an `update`
or an import, a tombstone by a `delete` (`History.lists_built`).
-/
import MeissnerSeal.Vault.Rewrite
import MeissnerSeal.Vault.History

namespace MeissnerSeal

open ByteCodec ExceptRules

variable {β : Type} {platform : Platform} {v : VaultIdentity platform} {path : Path}
  {session : UnlockedVault} {header : VaultHeader} {bytes out : Bytes} {draws : Draws} {env : Env}
  {call : Mutation} {fs : Fs} {P : PendingRecord → Prop}

-- ================================================================ one call

/-- A file whose header is `header` and whose records all have a property,
as far as a session can load it. -/
structure ListsOnly (platform : Platform) (session : UnlockedVault) (header : VaultHeader)
    (P : PendingRecord → Prop) (bytes : Bytes) : Prop where
  header_parsed : parseHeader bytes = .ok header
  listed : ∀ loaded records, loadVaultBytes platform session bytes = .ok loaded →
    List.Forall₂ (EntryFor loaded.bytes) loaded.entries records → ∀ record ∈ records, P record

/-- The entries of a file determine its records. -/
theorem entryFor_unique {entries : List RecordTableEntry} {left right : List PendingRecord}
    (hleft : List.Forall₂ (EntryFor bytes) entries left)
    (hright : List.Forall₂ (EntryFor bytes) entries right) : left = right := by
  induction hleft generalizing right with
  | nil =>
      cases hright
      rfl
  | @cons entry record entries left hentry _ ih =>
      cases hright with
      | @cons _ record' _ right hentry' hrest =>
          obtain ⟨recordId, kind, revisionId, frameBytes⟩ := record
          obtain ⟨recordId', kind', revisionId', frameBytes'⟩ := record'
          have hid := hentry.recordId.symm.trans hentry'.recordId
          have hkind := hentry.recordKind.symm.trans hentry'.recordKind
          have hrevision := hentry.revisionId.symm.trans hentry'.revisionId
          have hframe := hentry.frame.unique hentry'.frame
            (hentry.frameLen.symm.trans hentry'.frameLen)
          simp only at hid hkind hrevision hframe
          rw [hid, hkind, hrevision, hframe, ih hrest]

/-- What lists fewer records lists no others. -/
theorem ListsOnly.mono {P' : PendingRecord → Prop} (h : ListsOnly platform session header P bytes)
    (hsub : ∀ record, P record → P' record) : ListsOnly platform session header P' bytes :=
  ⟨h.header_parsed, fun loaded records hload hrecords record hmem =>
    hsub record (h.listed loaded records hload hrecords record hmem)⟩

/-- A call that writes adds nothing but the record it built. -/
theorem ListsOnly.of_plan {value : Option ItemId} {seed : U8Array 16}
    (h : ListsOnly platform session header P bytes)
    (hbuilds : ∀ pending, call.Builds platform draws session header pending → P pending)
    (hplan : call.plan platform draws session bytes = .ok ⟨value, some (out, seed)⟩) :
    ListsOnly platform session header P out := by
  obtain ⟨loaded, -, hload, -⟩ := Mutation.rewritten_of_plan hplan
  obtain ⟨headerBytes, wrkBytes, headerLen, wrkLen, hfound⟩ := found_of_load hload
  obtain ⟨records, hrecords, -, -⟩ := hfound.exists_records
  obtain ⟨-, -, pending, staged, hpending, hplace, hwrite⟩ :=
    (Mutation.plan_writes_iff hload hrecords).mp hplan
  obtain ⟨tableLen, hwrote⟩ := hfound.of_rewritten hwrite
  have hheader : loaded.header = header :=
    Except.ok.inj (hfound.header_parsed.symm.trans h.header_parsed)
  rw [hheader] at hpending
  refine ⟨hheader ▸ hwrote.header_parsed, fun loaded' records' hload' hrecords' record hmem => ?_⟩
  -- the file that was written lists what was staged
  obtain ⟨headerLen', tableLen', wrkLen', hparsed, h10, h14, hwrkLen, hopen, rfl, hoffset, hlen⟩ :=
    loadVaultBytes_eq_ok.mp hload'
  have hsame : loaded'.header = loaded.header :=
    Except.ok.inj (hparsed.symm.trans hwrote.header_parsed)
  have hheaderLen := leU32_inj (h10.unique hwrote.headerLen_at rfl)
  have htableLen := leU32_inj (h14.unique hwrote.tableLen_at rfl)
  have hstart : headerMinLen + headerLen'.toNat = loaded.wrkFrameOffset := by
    rw [hheaderLen, hfound.headerLen_eq, hfound.sections.wrkFrameOffset_eq]
  rw [hstart, hwrote.wrk_found, Except.ok.injEq] at hwrkLen
  rw [hstart, ← hwrkLen, hfound.wrkLen_eq, ← hfound.sections.wrkFrameLen_eq, htableLen,
    hsame] at hopen
  rw [entryFor_unique hrecords' (hwrote.entries_for _ hopen)] at hmem
  rcases Mutation.mem_of_place hplace record hmem with hold | rfl
  · exact h.listed loaded records hload hrecords record hold
  · exact hbuilds _ hpending

/-- The same, of the file and the reply alone. -/
theorem mutate_outcome {α : Type} {io : IoFaults} {plan : Bytes → Res (Plan α)}
    (hfs : fs path = some bytes) :
    (∃ e fs', mutate io path plan fs = (.error e, fs') ∧ fs' path = some bytes)
      ∨ (∃ value, plan bytes = .ok ⟨value, none⟩ ∧ mutate io path plan fs = (.ok value, fs))
      ∨ ∃ value out seed r fs', plan bytes = .ok ⟨value, some (out, seed)⟩
        ∧ mutate io path plan fs = (r, fs') ∧ fs' path = some out ∧ ∀ a, r = .ok a → a = value := by
  obtain hfail | hnoop | ⟨value, out, seed, -, hplan, -, hrun⟩ :=
    @mutate_cases α io path plan fs bytes hfs
  · exact .inl hfail
  · exact .inr (.inl hnoop)
  · refine .inr (.inr ⟨value, out, seed, _, _, hplan, hrun, Fs.set_self .., fun a ha => ?_⟩)
    cases hafter : io.afterRename with
    | true =>
        rw [hafter] at ha
        cases ha
    | false =>
        rw [hafter] at ha
        exact (Except.ok.inj ha).symm

/-- What a mutation leaves at the path it works on: what it found, or what
it planned to write. -/
theorem mutate_file {α : Type} {io : IoFaults} {plan : Bytes → Res (Plan α)}
    (hfs : fs path = some bytes) :
    (mutate io path plan fs).2 path = some bytes
      ∨ ∃ value out seed, plan bytes = .ok ⟨value, some (out, seed)⟩
        ∧ (mutate io path plan fs).2 path = some out := by
  obtain ⟨e, fs', hrun, hkeep⟩ | ⟨value, -, hrun⟩ | ⟨value, out, seed, r, fs', hplan, hrun,
    hwritten, -⟩ :=
    mutate_outcome hfs
  · rw [hrun]
    exact .inl hkeep
  · rw [hrun]
    exact .inl hfs
  · rw [hrun]
    exact .inr ⟨value, out, seed, hplan, hwritten⟩

/-- The file of a session whose records all have a property. -/
def FileListsOnly (platform : Platform) (session : UnlockedVault) (header : VaultHeader)
    (P : PendingRecord → Prop) (fs : Fs) : Prop :=
  ∃ bytes, fs session.path = some bytes ∧ ListsOnly platform session header P bytes

/-- Whatever becomes of a call, what holds of every record of the file
still does if it holds of the record the call builds. -/
theorem FileListsOnly.run (h : FileListsOnly platform session header P fs)
    (hbuilds : ∀ pending, call.Builds platform env.draws session header pending → P pending) :
    FileListsOnly platform session header P (call.run platform env session fs).2 := by
  obtain ⟨bytes, hfs, hlists⟩ := h
  rw [Mutation.run_eq_mutate]
  rcases mutate_file hfs with hkeep | ⟨value, out, seed, hplan, hwritten⟩
  · exact ⟨bytes, hkeep, hlists⟩
  · exact ⟨out, hwritten, hlists.of_plan hbuilds hplan⟩

/-- The calls of a vault and the mutations of a session leave
the same files. -/
theorem Mutation.run_add_snd (item : PlainItem) :
    ((Mutation.add item).run platform env session fs).2
      = (MeissnerSeal.add platform env session item fs).2 := by
  simp only [Mutation.run, FsM.bind_apply]
  rcases MeissnerSeal.add platform env session item fs with ⟨r, fs'⟩
  cases r with
  | ok id => rfl
  | error e => rfl

theorem Mutation.run_delete_snd (id : ItemId) :
    ((Mutation.delete id).run platform env session fs).2
      = (MeissnerSeal.delete platform env session id fs).2 := by
  simp only [Mutation.run, FsM.bind_apply]
  rcases MeissnerSeal.delete platform env session id fs with ⟨r, fs'⟩
  cases r with
  | ok u => rfl
  | error e => rfl

-- ================================================================= an import

section Import

variable {importEnv : ImportEnv}

/-- By induction on the ids. Each `delete` lists what it builds; where the
rollback stops does not matter. -/
theorem FileListsOnly.rollback
    (hdeletes : ∀ i id pending, (Mutation.delete id).Builds platform (importEnv.deletes i).draws
      session header pending → P pending)
    (ids : List ItemId) : ∀ {i : Nat} {fs : Fs}, FileListsOnly platform session header P fs →
      FileListsOnly platform session header P (rollback platform importEnv session i ids fs).2 := by
  induction ids with
  | nil => exact fun h => h
  | cons id ids ih =>
      intro i fs h
      have hstep := h.run (hdeletes i id)
      rw [Mutation.run_delete_snd] at hstep
      rcases hdelete : MeissnerSeal.delete platform (importEnv.deletes i)
        session id fs with ⟨r, fs'⟩
      rw [hdelete] at hstep
      simp only [MeissnerSeal.rollback, hdelete]
      cases r with
      | ok u => exact ih hstep
      | error e =>
          cases e with
          | panic => exact hstep
          | _ => exact hstep

/-- By induction on the items, with the number of those before: the draws of
an `add` are those of its place. -/
theorem FileListsOnly.importLoop
    (hdeletes : ∀ i id pending, (Mutation.delete id).Builds platform (importEnv.deletes i).draws
      session header pending → P pending)
    (items : List PlainItem) : ∀ {importedIds : List ItemId} {fs : Fs},
      FileListsOnly platform session header P fs →
      (∀ i item pending, items[i]? = some item →
        (Mutation.add item).Builds platform (importEnv.adds (importedIds.length + i)).draws session
          header pending → P pending) →
      FileListsOnly platform session header P
        (importLoop platform importEnv session importedIds items fs).2 := by
  induction items with
  | nil => exact fun h _ => h
  | cons item items ih =>
      intro importedIds fs h hadds
      have hstep := h.run (hadds 0 item · rfl)
      rw [Nat.add_zero, Mutation.run_add_snd] at hstep
      rcases hadd : MeissnerSeal.add platform (importEnv.adds importedIds.length) session item fs
        with ⟨r, fs'⟩
      rw [hadd] at hstep
      -- after an add that failed, the rollback
      have hback : FileListsOnly platform session header P
          (MeissnerSeal.rollback platform importEnv session 0 importedIds fs').2 :=
        FileListsOnly.rollback hdeletes importedIds hstep
      simp only [MeissnerSeal.importLoop, hadd]
      cases r with
      | ok id =>
          refine ih hstep fun i item' pending hitem hbuilds => hadds (i + 1) item' pending hitem ?_
          rw [List.length_append, List.length_singleton, Nat.add_assoc, Nat.add_comm 1 i] at hbuilds
          exact hbuilds
      | error e =>
          rcases hrollback : MeissnerSeal.rollback platform importEnv session 0 importedIds fs'
            with ⟨rolled, fs''⟩
          rw [hrollback] at hback
          cases e with
          | panic => exact hstep
          | _ =>
              simp only [hrollback]
              cases rolled with
              | error e => exact hback
              | ok done =>
                  cases done with
                  | true => exact hback
                  | false => exact hback

end Import

-- ================================================================= a history

/-- With these draws a call of the history seals an item for a record. -/
inductive SealsItem (platform : Platform) (calls : Calls β) : Draws → ItemId → PlainItem → Prop
    where
  | added {env : Env} {reply : Reply β} {item : PlainItem} {id : ItemId}
      (hcall : (.mutate env (.add item), reply) ∈ calls) (hid : env.draws.recordId = some id) :
      SealsItem platform calls env.draws id item
  | updated {env : Env} {reply : Reply β} {item : PlainItem} {id : ItemId}
      (hcall : (.mutate env (.update id item), reply) ∈ calls) :
      SealsItem platform calls env.draws id item
  | imported {importEnv : ImportEnv} {bundle passphrase : Bytes} {reply : Reply β}
      {items : List PlainItem} {i : Nat} {item : PlainItem} {id : ItemId}
      (hcall : (.importBundle importEnv bundle passphrase, reply) ∈ calls)
      (hitems : authenticate platform bundle passphrase = .ok items) (hitem : items[i]? = some item)
      (hid : (importEnv.adds i).draws.recordId = some id) :
      SealsItem platform calls (importEnv.adds i).draws id item

/-- Later calls take nothing back of what was sealed. -/
theorem SealsItem.mono {calls calls' : Calls β} {id : ItemId} {item : PlainItem}
    (h : SealsItem platform calls draws id item) (hsub : ∀ entry ∈ calls, entry ∈ calls') :
    SealsItem platform calls' draws id item := by
  cases h with
  | added hcall hid => exact .added (hsub _ hcall) hid
  | updated hcall => exact .updated (hsub _ hcall)
  | imported hcall hitems hitem hid => exact .imported (hsub _ hcall) hitems hitem hid

/-- A record with a frame a call of the history has built. -/
def VaultIdentity.Built (v : VaultIdentity platform) (calls : Calls β) (record : PendingRecord) :
    Prop :=
  (∃ draws item, SealsItem platform calls draws record.recordId item
      ∧ record.HoldsItem platform draws v.keys.itemWrapKey v.header item)
    ∨ ∃ draws, record.HoldsTombstone draws v.header

/-- Nor of what was built. -/
theorem VaultIdentity.Built.mono {calls calls' : Calls β} {record : PendingRecord}
    (h : v.Built calls record) (hsub : ∀ entry ∈ calls, entry ∈ calls') :
    v.Built calls' record := by
  rcases h with ⟨draws, item, hseals, hholds⟩ | htombstone
  · exact .inl ⟨draws, item, hseals.mono hsub, hholds⟩
  · exact .inr htombstone

/-- What a call leaves it has found or built. -/
theorem VaultIdentity.lists_built_run {calls : Calls β} {fs : Fs}
    (h : FileListsOnly platform (v.session path) v.header (v.Built calls) fs) (call : StoreCall β) :
    FileListsOnly platform (v.session path) v.header
      (v.Built (calls ++ [(call, (call.run platform (v.session path) fs).1)]))
      (call.run platform (v.session path) fs).2 := by
  generalize hreply : (call.run platform (v.session path) fs).1 = reply
  have hold : FileListsOnly platform (v.session path) v.header
    (v.Built (calls ++ [(call, reply)])) fs := by
    obtain ⟨bytes, hfs, hlists⟩ := h
    exact ⟨bytes, hfs, hlists.mono fun record hbuilt =>
      hbuilt.mono fun entry hmem => List.mem_append_left _ hmem⟩
  have hnew : (call, reply) ∈ calls ++ [(call, reply)] :=
    List.mem_append_right _ (List.mem_singleton_self _)
  have hkeys : (v.session path).keys = v.keys := rfl
  generalize calls ++ [(call, reply)] = calls' at hold hnew
  cases call with
  -- reading leaves the file
  | list io =>
      show FileListsOnly _ _ _ _ (list platform io (v.session path) fs).2
      rw [list_fs]
      exact hold
  | withItem io id f =>
      show FileListsOnly _ _ _ _ (withItem platform io (v.session path) id f fs).2
      rw [withItem_fs]
      exact hold
  -- the record a mutation builds, by its kind
  | mutate env call =>
      refine hold.run fun pending hbuilds => ?_
      cases call with
      | add item => exact .inl ⟨_, item, .added hnew hbuilds.1, hbuilds.2⟩
      | update id item =>
          obtain ⟨rfl, hholds⟩ := hbuilds
          exact .inl ⟨_, item, .updated hnew, hholds⟩
      | delete id => exact .inr ⟨_, hbuilds.2⟩
  | importBundle importEnv bundle passphrase =>
      show FileListsOnly _ _ _ _
        (importBundle platform importEnv (v.session path) bundle passphrase fs).2
      simp only [importBundle, FsM.bind_apply, FsM.lift]
      cases hitems : authenticate platform bundle passphrase with
      | error e => exact hold
      | ok items =>
          refine FileListsOnly.importLoop (fun i id pending hbuilds =>
            .inr ⟨_, hbuilds.2⟩) items hold
            fun i item pending hitem hbuilds => ?_
          rw [List.length_nil, Nat.zero_add] at hbuilds
          exact .inl ⟨_, item, .imported hnew hitems hitem hbuilds.1, hbuilds.2⟩

/-- Every record of a reachable file was built by a call of the history. -/
theorem History.lists_built {password : Bytes} {fs₀ : Fs} {st : VaultState} {calls : Calls β}
    (h : History platform path password fs₀ st calls) (hnodup : (drawnIds calls).Nodup) :
    ∃ (v : VaultIdentity platform) (m : ItemMap) (bytes : Bytes), v.password = password
      ∧ Reached v path st (drawnIds calls) m bytes
      ∧ FileListsOnly platform (v.session path) v.header (v.Built calls) st.fs := by
  induction h with
  | created hcreate =>
      obtain ⟨v, bytes, hv, hstored, rfl, -⟩ := create_eq_ok hcreate
      have himage := hstored
      obtain ⟨records, himage, hrecords⟩ := himage
      obtain ⟨-, -, hheader, -⟩ := himage.parts
      refine ⟨v, TombstoneMap.empty, bytes, hv, ⟨Fs.set_self .., hstored, ?_, ?_⟩, bytes,
        Fs.set_self .., hheader, ?_⟩
      · intro id hid
        cases hid
      · intro session hsession
        cases hsession
      · intro loaded records' hload hrecords' record hmem
        obtain ⟨loaded', hload', hloaded⟩ : ∃ loaded',
          loadVaultBytes platform (v.session path) bytes
            = .ok loaded' ∧ LoadedFrom v records bytes loaded' := himage.loadVaultBytes rfl
        obtain rfl := Except.ok.inj (hload.symm.trans hload')
        rw [entryFor_unique hrecords' hloaded.entries_for_loaded] at hmem
        cases hrecords
        cases hmem
  | unlocked _ hunlock ih =>
      obtain ⟨v, m, bytes, rfl, hreached, hlists⟩ := ih hnodup
      obtain ⟨rfl, rfl⟩ := hreached.stored.of_unlock hreached.file hunlock
      exact ⟨v, m, bytes, rfl, ⟨hreached.file, hreached.stored, hreached.keys_drawn,
        List.forall_mem_cons.mpr ⟨rfl, hreached.sessions⟩⟩, hlists⟩
  | called _ hsession call ih =>
      rw [drawnIds_append] at hnodup
      obtain ⟨v, m, bytes, hv, hreached, hlists⟩ := ih (List.nodup_append.mp hnodup).1
      rw [hreached.sessions _ hsession]
      obtain ⟨m', bytes', hfile, hstored, hids⟩ :=
        hreached.stored.after_call hreached.file hreached.keys_drawn call hnodup
      refine ⟨v, m', bytes', hv, ⟨hfile, hstored, ?_, hreached.sessions⟩,
        v.lists_built_run hlists call⟩
      rw [drawnIds_append]
      exact hids

end MeissnerSeal
