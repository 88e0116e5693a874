/-
What an accepted write leaves readable.

# Two ideas of a size

The encoder takes any payload whose lengths fit their fields; the decoder
stops at `PlainItem.WithinLimits`, and `list` and `export` decode every
live item. `FitsDecoders` is the decoder's side, said of a list of items:
those written together with those kept. An accepted `add`, `update` or
`import` can be read back, and the vault listed and exported, exactly
when it holds (`readable_iff_fitsDecoders`).
-/
import MeissnerSeal.Vault.Refinement

namespace MeissnerSeal

open ByteCodec ExceptRules

variable {β : Type} {platform : Platform} {v : VaultIdentity platform} {m : ItemMap} {bytes : Bytes}
  {path : Path} {session : UnlockedVault} {fs : Fs}

/-- Every item is within the decoder's limits, and the set of them fits
the `u32` length of an export. -/
def FitsDecoders (items : List PlainItem) : Prop :=
  (∀ item ∈ items, item.WithinLimits)
    ∧ 4 + (items.map PlainItem.payloadLen).sum + tagLen < 2 ^ 32

/-- With nothing failing around them, the reads of a vault succeed: each
of these ids is read as its item, and the vault lists and exports. -/
structure Readable (platform : Platform) (session : UnlockedVault) (fs : Fs)
    (pairs : List (ItemId × PlainItem)) : Prop where
  views : ∀ pair ∈ pairs, ∀ io : IoFaults, io.read = false →
    (withItem platform io session pair.1 (fun item => .ok item) fs).1 = .ok pair.2.view
  lists : ∀ io : IoFaults, io.read = false →
    ∃ summaries, (list platform io session fs).1 = .ok summaries
  exports : ∀ (io : Nat → IoFaults) (nonce : Nonce) (passphrase : Bytes),
    (∀ i, (io i).read = false) → passphrase ≠ [] →
    ∃ bundle, (exportBundle platform io (some nonce) session passphrase fs).1 = .ok bundle

/-- `FitsDecoders` does not depend on the order of the items. -/
theorem fitsDecoders_of_perm {items items' : List PlainItem} (h : items.Perm items') :
    FitsDecoders items ↔ FitsDecoders items' := by
  have hsum := (h.map PlainItem.payloadLen).sum_eq
  have hmem : ∀ item, item ∈ items ↔ item ∈ items' := fun item => h.mem_iff
  simp only [FitsDecoders, hsum, hmem]

theorem fitsDecoders_liveItems :
    FitsDecoders (liveItems m) ↔ AllWithinLimits m ∧ itemSetLen m + tagLen < 2 ^ 32 := by
  rw [FitsDecoders, itemSetLen]
  refine and_congr_left fun _ => ⟨fun h id item hmem => ?_, fun h => h.liveItems⟩
  exact h item (List.mem_map.mpr ⟨(id, item), hmem, rfl⟩)

/-- The reads of a stored file succeed exactly when its live items fit
the decoders. -/
theorem Stored.readable_iff {pairs : List (ItemId × PlainItem)} (h : Stored v m bytes)
    (hfs : fs session.path = some bytes) (hkeys : session.keys = v.keys)
    (htotal : platform.kdf.Total)
    (hlive : ∀ pair ∈ pairs, m.status pair.1 = some (some pair.2)) :
    Readable platform session fs pairs ↔ FitsDecoders (liveItems m) := by
  rw [fitsDecoders_liveItems]
  constructor
  · intro hread
    have hnonempty : utf8 "passphrase" ≠ [] := by decide
    obtain ⟨bundle, hbundle⟩ := hread.exports (fun _ => IoFaults.none) (List.Vector.replicate 24 0)
      (utf8 "passphrase") (fun _ => rfl) hnonempty
    exact (h.exists_exportBundle hfs hkeys htotal hnonempty fun _ => rfl).mp ⟨bundle, hbundle⟩
  · rintro ⟨hall, hlen⟩
    refine ⟨fun pair hpair io hio => ?_, fun io hio => ?_, fun io nonce passphrase hio hpass => ?_⟩
    · have hlimits := hall pair.1 pair.2 (TombstoneMap.mem_live.mpr (hlive pair hpair))
      rw [h.withItem_of_live _ hfs hkeys hio (hlive pair hpair) hlimits]
    · exact ⟨liveSummaries m, (h.list_eq_ok hfs hkeys hio).mpr ⟨hall, rfl⟩⟩
    · exact (h.exists_exportBundle hfs hkeys htotal hpass hio).mpr ⟨hall, hlen⟩

-- ======================================================= accepted writes

/-- After a successful `add` the vault is readable exactly when the old
items and the new one fit the decoders. -/
theorem Stored.readable_after_add {env : Env} {item : PlainItem} {id : ItemId} {fs' : Fs}
    (h : Stored v m bytes) (hfs : fs session.path = some bytes) (hkeys : session.keys = v.keys)
    (htotal : platform.kdf.Total) (hfresh : (Mutation.add item).Fresh env.draws m)
    (hadd : add platform env session item fs = (.ok id, fs')) :
    Readable platform session fs' [(id, item)] ↔ FitsDecoders (liveItems m ++ [item]) := by
  have hrun : (Mutation.add item).run platform env session fs = (.ok (some id), fs') := by
    simp only [Mutation.run, FsM.bind_apply, hadd, FsM.pure_apply]
  obtain ⟨-, hreply, out, hfs', hstored⟩ :=
    h.of_run_ok hfs hkeys hfresh (fun _ => Mutation.noConfusion) hrun
  have hid : env.draws.recordId = some id := hreply.symm
  have hnew := hfresh id hid
  simp only [Mutation.apply, hid, TombstoneMap.insert_of_not_mem item hnew] at hstored
  have hlive : ∀ pair ∈ [(id, item)], (m.push id item hnew).status pair.1 = some (some pair.2) := by
    intro pair hpair
    rw [List.mem_singleton.mp hpair, TombstoneMap.status_push, if_pos rfl]
  rw [hstored.readable_iff hfs' hkeys htotal hlive, liveItems, TombstoneMap.live_push,
    List.map_append]
  rfl

/-- After a successful `update`, exactly when the other items and the new
content do. -/
theorem Stored.readable_after_update {env : Env} {item : PlainItem} {id : ItemId} {fs' : Fs}
    (h : Stored v m bytes) (hfs : fs session.path = some bytes) (hkeys : session.keys = v.keys)
    (htotal : platform.kdf.Total)
    (hupdate : update platform env session id item fs = (.ok (), fs')) :
    Readable platform session fs' [(id, item)]
      ↔ FitsDecoders ((m.live.filter fun pair => pair.1 ≠ id).map Prod.snd ++ [item]) := by
  have hrun : (Mutation.update id item).run platform env session fs = (.ok none, fs') := by
    simp only [Mutation.run, FsM.bind_apply, hupdate, FsM.pure_apply]
  have hfresh : (Mutation.update id item).Fresh env.draws m := trivial
  obtain ⟨⟨-, -, old, hold⟩, -, out, hfs', hstored⟩ :=
    h.of_run_ok hfs hkeys hfresh (fun _ => Mutation.noConfusion) hrun
  have hlive : ∀ pair ∈ [(id, item)],
      (m.assign id (some item)).status pair.1 = some (some pair.2) := by
    intro pair hpair
    rw [List.mem_singleton.mp hpair, TombstoneMap.status_assign, if_pos rfl, hold]
    rfl
  have hassign : (m.assign id (some item)).live.Perm
      ((m.live.filter fun pair => pair.1 ≠ id) ++ [(id, item)]) :=
        TombstoneMap.live_assign_perm hold
  have hperm := hassign.map Prod.snd
  rw [List.map_append] at hperm
  rw [hstored.readable_iff hfs' hkeys htotal hlive]
  exact fitsDecoders_of_perm hperm

/-- After a successful `import`, exactly when the old items and those of
the bundle do. -/
theorem Stored.readable_after_import {env : ImportEnv} {bundle passphrase : Bytes}
    {ids : List ItemId} {fs' : Fs} (h : Stored v m bytes) (hfs : fs session.path = some bytes)
    (hkeys : session.keys = v.keys) (htotal : platform.kdf.Total)
    (hfresh : env.Fresh m maxExportItemCount)
    (himport : importBundle platform env session bundle passphrase fs = (.ok ids, fs')) :
    ∃ items, authenticate platform bundle passphrase = .ok items ∧ ids.length = items.length
      ∧ (Readable platform session fs' (ids.zip items) ↔ FitsDecoders (liveItems m ++ items)) := by
  obtain ⟨items, hitems, hlen, out, m', hfs', hstored, hextends, -⟩ :=
    h.of_importBundle hfs hkeys hfresh himport
  refine ⟨items, hitems, hlen, ?_⟩
  have hlive : ∀ pair ∈ ids.zip items, m'.status pair.1 = some (some pair.2) := by
    intro pair hpair
    refine TombstoneMap.mem_live.mp ?_
    rw [hextends.live_eq]
    exact List.mem_append_right _ hpair
  rw [hstored.readable_iff hfs' hkeys htotal hlive, liveItems, hextends.live_eq, List.map_append,
    List.map_snd_zip (Nat.le_of_eq hlen.symm)]
  rfl

-- ============================================================== any history

/-- In every reachable vault: what an accepted `add`, `update` or `import`
wrote can be read back, with everything else, exactly when the items it
wrote and those it kept fit the decoders. -/
theorem readable_iff_fitsDecoders {password : Bytes} {fs₀ : Fs} {st : VaultState} {calls : Calls β}
    (htotal : platform.kdf.Total) (h : History platform path password fs₀ st calls)
    (hnodup : (drawnIds calls).Nodup) :
    ∃ (v : VaultIdentity platform) (m : ItemMap) (bytes : Bytes),
      Reached v path st (drawnIds calls) m bytes ∧ ∀ session ∈ st.sessions,
        (∀ (env : Env) (item : PlainItem) (id : ItemId) (fs' : Fs),
          (∀ drawn, env.draws.recordId = some drawn → drawn ∉ drawnIds calls) →
          add platform env session item st.fs = (.ok id, fs') →
          (Readable platform session fs' [(id, item)] ↔ FitsDecoders (liveItems m ++ [item])))
        ∧ (∀ (env : Env) (id : ItemId) (item : PlainItem) (fs' : Fs),
          update platform env session id item st.fs = (.ok (), fs') →
          (Readable platform session fs' [(id, item)]
            ↔ FitsDecoders ((m.live.filter fun pair => pair.1 ≠ id).map Prod.snd ++ [item])))
        ∧ ∀ (env : ImportEnv) (bundle passphrase : Bytes) (ids : List ItemId) (fs' : Fs),
          (drawnIds calls ++ (List.range maxExportItemCount).filterMap env.idAt).Nodup →
          importBundle platform env session bundle passphrase st.fs = (.ok ids, fs') →
          ∃ items, authenticate platform bundle passphrase = .ok items
            ∧ ids.length = items.length
            ∧ (Readable platform session fs' (ids.zip items)
              ↔ FitsDecoders (liveItems m ++ items)) := by
  obtain ⟨v, m, bytes, -, hreached⟩ := h.reached hnodup
  refine ⟨v, m, bytes, hreached, fun session hsession => ?_⟩
  rw [hreached.sessions session hsession]
  have hfile : st.fs (v.session path).path = some bytes := hreached.file
  refine ⟨fun env item id fs' hdrawn hadd => ?_, fun env id item fs' hupdate => ?_,
    fun env bundle passphrase ids fs' hdrawn himport => ?_⟩
  · refine hreached.stored.readable_after_add hfile rfl htotal (fun drawn hid hmem => ?_) hadd
    exact hdrawn drawn hid (hreached.keys_drawn drawn hmem)
  · exact hreached.stored.readable_after_update hfile rfl htotal hupdate
  · exact hreached.stored.readable_after_import hfile rfl htotal
      (ImportEnv.fresh_of_nodup hreached.keys_drawn le_rfl hdrawn) himport

/-- A note that is read back. -/
theorem readable_iff_fitsDecoders_of_sampleItem :
    ∃ (st : VaultState) (session : UnlockedVault) (fs' : Fs),
      History Platform.transparent samplePath samplePassword noFiles st ([] : Calls Unit)
      ∧ session ∈ st.sessions
      ∧ add Platform.transparent sampleEnv session sampleItem st.fs = (.ok zeroId, fs')
      ∧ Readable Platform.transparent session fs' [(zeroId, sampleItem)] := by
  obtain ⟨st, v, -, fs', -, hhistory, hsession, -, -, hadd, -⟩ :=
    sample_added (storedFrameLen_lt sampleItem_withinLimits)
  obtain ⟨v', m, bytes, hreached, hall⟩ :=
    readable_iff_fitsDecoders Platform.transparent_total hhistory List.nodup_nil
  have hnone : liveItems m = [] := by
    rw [liveItems, List.map_eq_nil_iff, List.eq_nil_iff_forall_not_mem]
    rintro ⟨id, item⟩ hmem
    have hstatus : m.status id = some (some item) := TombstoneMap.mem_live.mp hmem
    rw [TombstoneMap.status_eq_none.mpr fun hid => by cases hreached.keys_drawn id hid] at hstatus
    cases hstatus
  have hreadable := (hall _ hsession).1 sampleEnv sampleItem zeroId fs'
    (fun _ _ => List.not_mem_nil) hadd
  rw [hnone] at hreadable
  refine ⟨st, _, fs', hhistory, hsession, hadd, hreadable.mpr ⟨?_, by decide⟩⟩
  intro item hitem
  rw [List.nil_append, List.mem_singleton] at hitem
  rw [hitem]
  exact sampleItem_withinLimits

/-- A secret one byte over the decoder's limit. -/
def oversizedItem : PlainItem := noteOf (List.replicate 65537 0)

theorem storedFrameLen_oversizedItem : storedFrameLen (some oversizedItem) = 65819 := by
  rw [oversizedItem, storedFrameLen_noteOf, List.length_replicate]

theorem oversizedItem_not_withinLimits : ¬ oversizedItem.WithinLimits := by
  rintro ⟨-, -, -, hsecret⟩
  have hlen : oversizedItem.secret.length = 65537 := List.length_replicate
  have hmax : maxSecretLen = 64 * 1024 := rfl
  omega

/-- The vault that has accepted it neither shows it nor lists. -/
theorem oversizedItem_unreadable :
    ∃ (st : VaultState) (session : UnlockedVault) (fs' : Fs),
      History Platform.transparent samplePath samplePassword noFiles st ([] : Calls Unit)
      ∧ session ∈ st.sessions
      ∧ add Platform.transparent sampleEnv session oversizedItem st.fs = (.ok zeroId, fs')
      ∧ (∀ io summaries, (list Platform.transparent io session fs').1 ≠ .ok summaries)
      ∧ ¬ Readable Platform.transparent session fs' [(zeroId, oversizedItem)] := by
  have hlen : storedFrameLen (some oversizedItem) < 2 ^ 32 := by
    rw [storedFrameLen_oversizedItem]
    decide
  obtain ⟨st, v, m, fs', bytes', hhistory, hsession, -, -, hadd, hfs', hstored, hlive⟩ :=
    sample_added hlen
  have hfile : fs' (v.session samplePath).path = some bytes' := hfs'
  have hlists : ∀ io summaries,
      (list Platform.transparent io (v.session samplePath) fs').1 ≠ .ok summaries := by
    intro io summaries hlist
    cases hread : io.read with
    | true =>
        simp only [list, loadVault, FsM.bind_apply, readFile, hread, if_true, reduceCtorEq] at hlist
    | false =>
        obtain ⟨hall, -⟩ := (hstored.list_eq_ok hfile rfl hread).mp hlist
        refine oversizedItem_not_withinLimits (hall zeroId oversizedItem ?_)
        rw [hlive]
        exact List.mem_singleton_self _
  refine ⟨st, _, fs', hhistory, hsession, hadd, hlists, fun hreadable => ?_⟩
  obtain ⟨summaries, hlist⟩ := hreadable.lists IoFaults.none rfl
  exact hlists IoFaults.none summaries hlist

end MeissnerSeal
