/-
An export and its import: what arrives in the target vault.

# Limits on one side

`import` counts: it rejects an item set over `maxExportItemCount` before
it adds anything, and the target's table holds `maxRecords`. `export`
counts neither. Within both, the target receives exactly the source's
live items, in order, under fresh ids (`export_import_iff`).
-/
import MeissnerSeal.Export.AllOrNothing

namespace MeissnerSeal

open ByteCodec ExceptRules

variable {β : Type} {platform : Platform} {v v' : VaultIdentity platform} {m m' : ItemMap}
  {bytes bytes' : Bytes} {path : Path} {session session' : UnlockedVault} {fs fs' : Fs}

/-- The first `n` adds of the import meet no failure. -/
def ImportEnv.Quiet (env : ImportEnv) (path : Path) (fs : Fs) (n : Nat) : Prop :=
  ∀ i < n, (env.adds i).draws.ForAdd ∧ (env.adds i).Persists path fs
    ∧ (env.adds i).io.afterRename = false

/-- The import has put these items behind those of `m`, in order,
under fresh ids. -/
def Imported (v : VaultIdentity platform) (path : Path) (m : ItemMap) (items : List PlainItem) :
    Res (List ItemId) × Fs → Prop
  | (.ok ids, fs') => ids.length = items.length ∧ ids.Nodup ∧ (∀ id ∈ ids, id ∉ m.keys)
      ∧ ∃ m' bytes', fs' path = some bytes' ∧ Stored v m' bytes' ∧ m'.live = m.live ++ ids.zip items
  | (.error _, _) => False

/-- A quiet import of what an export wrote. -/
theorem Stored.import_of_export {env : ImportEnv} {io : Nat → IoFaults} {nonceDraw : Option Nonce}
    {bundle passphrase : Bytes} (h : Stored v m bytes) (hfs : fs session.path = some bytes)
    (hkeys : session.keys = v.keys) (h' : Stored v' m' bytes')
    (hfs' : fs' session'.path = some bytes') (hkeys' : session'.keys = v'.keys)
    (hexport : (exportBundle platform io nonceDraw session passphrase fs).1 = .ok bundle)
    (hquiet : env.Quiet session'.path fs' (liveItems m).length)
    (hfresh : env.Fresh m' maxExportItemCount) :
    Imported v' session'.path m' (liveItems m)
        (importBundle platform env session' bundle passphrase fs')
      ↔ (liveItems m).length ≤ maxExportItemCount
        ∧ m'.size + (liveItems m).length ≤ maxRecords := by
  obtain ⟨hall, -, hauth⟩ := h.of_exportBundle hfs hkeys (Prod.ext hexport rfl)
  constructor
  · intro himported
    rcases hrun : importBundle platform env session' bundle passphrase fs' with ⟨r, fs''⟩
    rw [hrun] at himported
    cases r with
    | error e => exact himported.elim
    | ok ids =>
        -- an import that succeeds has added what the bundle held
        obtain ⟨items, hitems, hlen, out, m'', -, hstored, hextends, -⟩ :=
          h'.of_importBundle hfs' hkeys' hfresh hrun
        rw [hauth] at hitems
        split at hitems
        case isFalse => cases hitems
        case isTrue hle =>
          rw [Except.ok.injEq] at hitems
          subst hitems
          refine ⟨hle, ?_⟩
          have hsize := hstored.size_le
          rw [hextends.size_eq, List.length_zip, hlen, Nat.min_self] at hsize
          exact hsize
  · rintro ⟨hle, hsize⟩
    rw [if_pos hle] at hauth
    have hfresh' : env.Fresh m' (liveItems m).length :=
      fun i hi => hfresh i (Nat.lt_of_lt_of_le hi hle)
    -- what the exporter decoded fits a frame, and the target has room
    have hclean : ∀ i < (liveItems m).length,
        env.AddClean session'.path fs' m' (liveItems m) i := by
      intro i hi
      obtain ⟨hdraws, hpersists, hafter⟩ := hquiet i hi
      have hlimits := hall.liveItems _ (List.getElem_mem hi)
      exact ⟨⟨_, List.getElem?_eq_getElem hi, hdraws, storedFrameLen_lt hlimits, by omega,
        hpersists⟩, hafter⟩
    obtain ⟨ids, out, m'', hrun, hstored, hlen, -, hextends⟩ :=
      h'.importLoop_of_clean hfs' hkeys' hfresh' hclean
    have hnodup : m''.keys.Nodup := m''.nodup
    rw [hextends.keys_eq, List.map_fst_zip (Nat.le_of_eq hlen), List.nodup_append] at hnodup
    simp only [importBundle, FsM.bind_apply, FsM.lift, hauth, hrun]
    exact ⟨hlen, hnodup.2.1, fun id hid hmem => hnodup.2.2 id hmem id hid rfl, m'', out,
      Fs.set_self .., hstored, hextends.live_eq⟩

/-- For every reachable source and target: a bundle that was exported is
imported, with nothing failing around it, exactly when the source has at
most `maxExportItemCount` live items and the target has room for them. -/
theorem export_import_iff {path path' : Path} {password password' : Bytes} {fs₀ fs₀' : Fs}
    {st st' : VaultState} {calls calls' : Calls β}
    (hsource : History platform path password fs₀ st calls) (hnodup : (drawnIds calls).Nodup)
    (htarget : History platform path' password' fs₀' st' calls')
    (hnodup' : (drawnIds calls').Nodup) :
    ∃ (v v' : VaultIdentity platform) (m m' : ItemMap) (bytes bytes' : Bytes),
      Reached v path st (drawnIds calls) m bytes
      ∧ Reached v' path' st' (drawnIds calls') m' bytes'
      ∧ ∀ source ∈ st.sessions, ∀ target ∈ st'.sessions,
        ∀ (io : Nat → IoFaults) (nonceDraw : Option Nonce) (passphrase bundle : Bytes)
          (env : ImportEnv),
          (exportBundle platform io nonceDraw source passphrase st.fs).1 = .ok bundle →
          env.Quiet path' st'.fs (liveItems m).length →
          (drawnIds calls' ++ (List.range maxExportItemCount).filterMap env.idAt).Nodup →
          (Imported v' path' m' (liveItems m)
              (importBundle platform env target bundle passphrase st'.fs)
            ↔ (liveItems m).length ≤ maxExportItemCount
              ∧ m'.size + (liveItems m).length ≤ maxRecords) := by
  obtain ⟨v, m, bytes, -, hreached⟩ := hsource.reached hnodup
  obtain ⟨v', m', bytes', -, hreached'⟩ := htarget.reached hnodup'
  refine ⟨v, v', m, m', bytes, bytes', hreached, hreached', ?_⟩
  intro source hs target ht io nonceDraw passphrase bundle env hexport hquiet hdraws
  rw [hreached.sessions source hs] at hexport
  rw [hreached'.sessions target ht]
  have hfile : st.fs (v.session path).path = some bytes := hreached.file
  have hkeys : (v.session path).keys = v.keys := rfl
  have hfile' : st'.fs (v'.session path').path = some bytes' := hreached'.file
  have hkeys' : (v'.session path').keys = v'.keys := rfl
  exact hreached.stored.import_of_export hfile hkeys hreached'.stored hfile' hkeys' hexport hquiet
    (ImportEnv.fresh_of_nodup hreached'.keys_drawn le_rfl hdraws)

-- ================================================================ samples

/-- The sample vault holds any number of notes, up to its capacity. -/
theorem sample_filled (n : Nat) (hn : n ≤ maxRecords) :
    ∃ (st : VaultState) (calls : Calls Unit) (v : VaultIdentity Platform.transparent) (m : ItemMap)
      (bytes : Bytes),
      History Platform.transparent samplePath samplePassword noFiles st calls
      ∧ drawnIds calls = (List.range n).map numberedId
      ∧ v.session samplePath ∈ st.sessions ∧ AgreesOff samplePath noFiles st.fs
      ∧ st.fs samplePath = some bytes ∧ Stored v m bytes ∧ m.size = n
      ∧ m.keys = (List.range n).map numberedId ∧ liveItems m = List.replicate n sampleItem := by
  have hcap : maxRecords = 2 ^ 26 := rfl
  induction n with
  | zero =>
      obtain ⟨st, v, bytes, hhistory, hsession, hoff, -, hfs, hstored⟩ := sample_reached
      exact ⟨st, [], v, _, bytes, hhistory, rfl, hsession, hoff, hfs, hstored, rfl, rfl, rfl⟩
  | succ n ih =>
      obtain ⟨st, calls, v, m, bytes, hhistory, hdrawn, hsession, hoff, hfs, hstored, hsize, hkeys,
        hitems⟩ := ih (Nat.le_of_succ_le hn)
      have hfile : st.fs (v.session samplePath).path = some bytes := hfs
      have hnew : numberedId n ∉ m.keys := by
        rw [hkeys]
        intro hmem
        obtain ⟨k, hk, heq⟩ := List.mem_map.mp hmem
        have hlt := List.mem_range.mp hk
        have hsame := numberedId_inj (by omega) (by omega) heq
        omega
      have hfresh : (Mutation.add sampleItem).Fresh (drawsWith (numberedId n) zeroId) m := by
        intro id hid
        obtain rfl := Option.some.inj hid
        exact hnew
      -- one add more, of the id that is next
      have hcommits : (Mutation.add sampleItem).Commits ⟨drawsWith (numberedId n) zeroId, {}⟩
          (v.session samplePath).path st.fs m :=
        ⟨⟨drawsWith_forAdd (numberedId n) zeroId, storedFrameLen_lt sampleItem_withinLimits,
          by rw [hsize]; exact hn⟩, persists_of_faultless (numberedId n) zeroId rfl rfl hoff⟩
      obtain ⟨out, hrun, hstored'⟩ := hstored.run_of_commits hfile rfl hfresh hcommits
      have hnext := hhistory.called hsession
        (.mutate ⟨drawsWith (numberedId n) zeroId, {}⟩ (.add sampleItem))
      simp only [StoreCall.run, hrun] at hnext
      simp only [Mutation.apply, drawsWith, TombstoneMap.insert_of_not_mem sampleItem hnew]
        at hstored'
      refine ⟨_, _, v, _, out, hnext, ?_, hsession, ?_, ?_, hstored', ?_, ?_, ?_⟩
      · rw [drawnIds_append, hdrawn, List.range_succ, List.map_append]
        rfl
      · intro p hp
        show Fs.set st.fs samplePath (some out) p = noFiles p
        rw [Fs.set_of_ne _ _ hp, hoff p hp]
      · exact Fs.set_self st.fs samplePath (some out)
      · rw [TombstoneMap.size_push, hsize]
      · rw [TombstoneMap.keys_push, hkeys, List.range_succ, List.map_append]
        rfl
      · rw [liveItems, TombstoneMap.live_push, List.map_append, List.replicate_succ', ← hitems]
        rfl

/-- The sample vault exports what it holds. -/
theorem sample_exported {v : VaultIdentity Platform.transparent} {m : ItemMap} {bytes : Bytes}
    {fs : Fs} {n : Nat} (hfs : fs samplePath = some bytes) (hstored : Stored v m bytes)
    (hn : n ≤ 2 ^ 16) (hitems : liveItems m = List.replicate n sampleItem) :
    ∃ bundle, (exportBundle Platform.transparent (fun _ => IoFaults.none)
        (some (List.Vector.replicate 24 0)) (v.session samplePath) samplePassword fs).1
          = .ok bundle
      ∧ authenticate Platform.transparent bundle samplePassword
        = if n ≤ maxExportItemCount then .ok (List.replicate n sampleItem)
          else .error (formatError "export item count exceeds maximum") := by
  have hfile : fs (v.session samplePath).path = some bytes := hfs
  have hall : AllWithinLimits m := by
    intro id item hmem
    have hitem : item ∈ liveItems m := List.mem_map.mpr ⟨(id, item), hmem, rfl⟩
    rw [hitems] at hitem
    rw [List.eq_of_mem_replicate hitem]
    exact sampleItem_withinLimits
  have hlen : itemSetLen m + tagLen < 2 ^ 32 := by
    have hpayload : sampleItem.payloadLen = 28 := by decide
    have htag : tagLen = 16 := rfl
    rw [itemSetLen, hitems, List.map_replicate, List.sum_replicate, hpayload, nsmul_eq_mul,
      Nat.cast_id]
    omega
  have hpassphrase : samplePassword ≠ [] := by decide
  have hreads : ∀ i : Nat, ((fun _ => IoFaults.none : Nat → IoFaults) i).read
    = false := fun _ => rfl
  obtain ⟨bundle, hbundle⟩ : ∃ bundle, (exportBundle Platform.transparent (fun _ => IoFaults.none)
      (some (List.Vector.replicate 24 0)) (v.session samplePath) samplePassword fs).1
        = .ok bundle :=
    (hstored.exists_exportBundle hfile rfl Platform.transparent_total hpassphrase hreads).mpr
      ⟨hall, hlen⟩
  obtain ⟨-, -, hauth⟩ := hstored.of_exportBundle hfile rfl (Prod.ext hbundle rfl)
  rw [hitems, List.length_replicate] at hauth
  exact ⟨bundle, hbundle, hauth⟩

/-- The migration of one note into a new vault. -/
theorem export_import_iff_of_one :
    ∃ (st st' : VaultState) (calls : Calls Unit) (source target : UnlockedVault) (bundle : Bytes)
      (v' : VaultIdentity Platform.transparent) (m' : ItemMap),
      History Platform.transparent samplePath samplePassword noFiles st calls
      ∧ source ∈ st.sessions ∧ target ∈ st'.sessions
      ∧ (exportBundle Platform.transparent (fun _ => IoFaults.none)
          (some (List.Vector.replicate 24 0)) source samplePassword st.fs).1 = .ok bundle
      ∧ Imported v' samplePath m' [sampleItem]
        (importBundle Platform.transparent (importEnvWith IoFaults.none) target bundle
          samplePassword st'.fs) := by
  obtain ⟨st, calls, v, m, bytes, hhistory, hdrawn, hsession, -, hfs, hstored, -, -, hitems⟩ :=
    sample_filled 1 (by decide)
  obtain ⟨st', v', bytes', hhistory', hsession', hoff', -, hfs', hstored'⟩ := @sample_reached Unit
  obtain ⟨bundle, hbundle, -⟩ := sample_exported hfs hstored (by decide) hitems
  have hnodup : (drawnIds calls).Nodup := by
    rw [hdrawn]
    exact List.nodup_singleton _
  obtain ⟨w, w', n, n', out, out', hreached, hreached', hall⟩ :=
    export_import_iff hhistory hnodup hhistory' List.nodup_nil
  -- the source's map is the sample's
  have hkeys : w.keys = v.keys :=
    (congrArg UnlockedVault.keys (hreached.sessions _ hsession)).symm
  have hout : out = bytes := Option.some.inj (hreached.file.symm.trans hfs)
  rw [hout] at hreached
  obtain rfl := hreached.stored.unique hstored hkeys
  -- the target has drawn nothing, so it is empty
  have hempty : n'.size = 0 := by
    have hnil : n'.keys = [] :=
      List.eq_nil_iff_forall_not_mem.mpr fun id hid => by cases hreached'.keys_drawn id hid
    rw [TombstoneMap.size, ← List.length_map Prod.fst]
    exact congrArg List.length hnil
  have hiff := hall _ hsession _ hsession' (fun _ => IoFaults.none)
    (some (List.Vector.replicate 24 0)) samplePassword bundle (importEnvWith IoFaults.none) hbundle
  rw [hitems] at hiff
  refine ⟨st, st', calls, _, _, bundle, w', n', hhistory, hsession, hsession', hbundle,
    (hiff ?_ ?_).mpr ⟨by decide, by rw [hempty]; decide⟩⟩
  · intro i hi
    obtain rfl : i = 0 := Nat.lt_one_iff.mp hi
    exact ⟨drawsWith_forAdd zeroId zeroId, persists_of_faultless zeroId zeroId rfl rfl hoff', rfl⟩
  · rw [drawnIds, List.flatMap_nil, List.nil_append]
    exact importEnvWith_drawn IoFaults.none

/-- A vault of one item more than `import` counts: its bundle is
exported, and imported by no one. -/
theorem overfull_bundle_rejected :
    ∃ (st : VaultState) (calls : Calls Unit) (source : UnlockedVault) (bundle : Bytes),
      History Platform.transparent samplePath samplePassword noFiles st calls
      ∧ (drawnIds calls).Nodup ∧ source ∈ st.sessions
      ∧ (exportBundle Platform.transparent (fun _ => IoFaults.none)
          (some (List.Vector.replicate 24 0)) source samplePassword st.fs).1 = .ok bundle
      ∧ ∀ (env : ImportEnv) (target : UnlockedVault) (fs : Fs),
        importBundle Platform.transparent env target bundle samplePassword fs
          = (.error (formatError "export item count exceeds maximum"), fs) := by
  have hcap : maxRecords = 2 ^ 26 := rfl
  obtain ⟨st, calls, v, m, bytes, hhistory, hdrawn, hsession, -, hfs, hstored, -, -, hitems⟩ :=
    sample_filled 4097 (by omega)
  obtain ⟨bundle, hbundle, hauth⟩ := sample_exported hfs hstored (by omega) hitems
  have hmax : maxExportItemCount = 4096 := rfl
  rw [if_neg (by omega)] at hauth
  refine ⟨st, calls, _, bundle, hhistory, ?_, hsession, hbundle, fun env target fs => ?_⟩
  · rw [hdrawn, List.nodup_map_iff_inj_on List.nodup_range]
    intro n hn k hk heq
    have hn' := List.mem_range.mp hn
    have hk' := List.mem_range.mp hk
    exact numberedId_inj (by omega) (by omega) heq
  · simp only [importBundle, FsM.bind_apply, FsM.lift, hauth]

end MeissnerSeal
