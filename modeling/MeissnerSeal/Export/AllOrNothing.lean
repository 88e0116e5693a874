/-
Whether an import is all or nothing.

# The item left behind

The rollback deletes the ids that earlier adds returned. An `add` that
fails behind its rename has returned no id, and its item stays: when the
rollback around it succeeds, the import reports that nothing was
imported (`import_allOrNothing_iff`). Every other pattern of failures
keeps the promise.
-/
import MeissnerSeal.Vault.FailedMutation

namespace MeissnerSeal

open ByteCodec ExceptRules

variable {β : Type} {platform : Platform} {v : VaultIdentity platform} {m : ItemMap} {bytes : Bytes}
  {path : Path} {session : UnlockedVault} {fs : Fs}

/-- The `k`-th `add` is on disk and reports a failure, and the rollback
of those before it succeeds. -/
def ImportEnv.LeavesBehind (env : ImportEnv) (path : Path) (fs : Fs) (m : ItemMap)
    (items : List PlainItem) (k : Nat) : Prop :=
  (∀ i < k, env.AddClean path fs m items i) ∧ env.AddCommits path fs m items k
    ∧ (env.adds k).io.afterRename = true ∧ ∀ j < k, env.DeleteClean path fs j

/-- What a call of `import` promises of the vault it leaves: its items
behind the old ones, or the old ones. A rollback that failed says so,
and a panic returns nothing. -/
def AllOrNothing (v : VaultIdentity platform) (path : Path) (m : ItemMap) (items : List PlainItem) :
    Res (List ItemId) × Fs → Prop
  | (.ok ids, fs') => ∃ m' bytes', fs' path = some bytes' ∧ Stored v m' bytes'
      ∧ ids.length = items.length ∧ m'.live = m.live ++ ids.zip items
  | (.error .partialImport, _) => True
  | (.error .panic, _) => True
  | (.error _, fs') => ∃ m' bytes', fs' path = some bytes' ∧ Stored v m' bytes'
      ∧ ∀ pair, pair ∈ m'.live ↔ pair ∈ m.live

/-- An import keeps its promise exactly when it leaves no item behind. -/
theorem Stored.allOrNothing_iff {env : ImportEnv} {items : List PlainItem} (h : Stored v m bytes)
    (hfs : fs session.path = some bytes) (hkeys : session.keys = v.keys)
    (hfresh : env.Fresh m items.length) :
    AllOrNothing v session.path m items (importLoop platform env session [] items fs)
      ↔ ¬ ∃ k < items.length, env.LeavesBehind session.path fs m items k := by
  by_cases hclean : ∀ i < items.length, env.AddClean session.path fs m items i
  · obtain ⟨ids, bytes', m', hrun, hstored, hlen, -, hextends⟩ :=
      h.importLoop_of_clean hfs hkeys hfresh hclean
    rw [hrun]
    refine ⟨fun _ => ?_, fun _ => ⟨m', bytes', Fs.set_self .., hstored, hlen, hextends.live_eq⟩⟩
    rintro ⟨k, hk, -, -, hafter, -⟩
    rw [(hclean k hk).2] at hafter
    cases hafter
  · obtain ⟨k, hk, hunclean, hleading⟩ := exists_first hclean
    obtain ⟨e, fs', bytes', m', hrun, hfs', hstored, -, hcases⟩ :=
      h.importLoop_of_unclean hfs hkeys hfresh hk hleading hunclean
    rw [hrun]
    -- no other add can be the one left behind
    have hfirst : ∀ j < items.length, env.LeavesBehind session.path fs m items j → j = k := by
      rintro j hj ⟨hbefore, -, hafter, -⟩
      rcases Nat.lt_trichotomy j k with hlt | heq | hgt
      · rw [(hleading j hlt).2] at hafter
        cases hafter
      · exact heq
      · exact absurd (hbefore k hgt) hunclean
    rcases hcases with ⟨hnot, he⟩ | ⟨hcommits, he⟩
    · refine ⟨fun _ => ?_, fun _ => ?_⟩
      · rintro ⟨j, hj, hleaves⟩
        obtain rfl := hfirst j hj hleaves
        exact hnot hleaves.2.1
      · rcases he with rfl | rfl | ⟨rfl, hlive⟩
        · exact trivial
        · exact trivial
        · exact ⟨m', bytes', hfs', hstored, fun pair => by rw [hlive]⟩
    · rcases he with ⟨he, hdeletes⟩ | ⟨rfl, hdeletes, id, item, hid, -, hlive⟩
      · refine ⟨fun _ => ?_, fun _ => ?_⟩
        · rintro ⟨j, hj, hleaves⟩
          obtain rfl := hfirst j hj hleaves
          exact hdeletes hleaves.2.2.2
        · rcases he with rfl | rfl
          · exact trivial
          · exact trivial
      · refine ⟨?_, fun hnone => ?_⟩
        · rintro ⟨m'', bytes'', hfs'', hstored'', hsame⟩
          exfalso
          rw [hfs', Option.some.injEq] at hfs''
          subst hfs''
          obtain rfl := hstored''.unique hstored rfl
          have hmem : (id, item) ∈ m''.live := by
            rw [hlive]
            exact List.mem_append_right _ (List.mem_singleton_self _)
          have hstatus : m.status id = some (some item) :=
            TombstoneMap.mem_live.mp ((hsame _).mp hmem)
          rw [TombstoneMap.status_eq_none.mpr (hfresh k hk _ hid).1] at hstatus
          cases hstatus
        · have hafter : (env.adds k).io.afterRename = true := by
            by_contra hnot
            exact hunclean ⟨hcommits, Bool.eq_false_of_not_eq_true hnot⟩
          exact absurd ⟨k, hk, hleading, hcommits, hafter, hdeletes⟩ hnone

/-- In every reachable vault, for every bundle that authenticates and
every way the calls inside fail: `import` is all or nothing unless it
leaves an item behind. -/
theorem import_allOrNothing_iff {password : Bytes} {fs₀ : Fs} {st : VaultState} {calls : Calls β}
    (h : History platform path password fs₀ st calls) (hnodup : (drawnIds calls).Nodup) :
    ∃ (v : VaultIdentity platform) (m : ItemMap) (bytes : Bytes),
      Reached v path st (drawnIds calls) m bytes ∧ ∀ session ∈ st.sessions,
        ∀ (env : ImportEnv) (bundle passphrase : Bytes) (items : List PlainItem),
          (drawnIds calls ++ (List.range maxExportItemCount).filterMap env.idAt).Nodup →
          authenticate platform bundle passphrase = .ok items →
          (AllOrNothing v path m items (importBundle platform env session bundle passphrase st.fs)
            ↔ ¬ ∃ k < items.length, env.LeavesBehind path st.fs m items k) := by
  obtain ⟨v, m, bytes, -, hreached⟩ := h.reached hnodup
  refine ⟨v, m, bytes, hreached, fun session hsession env bundle passphrase items
    hdraws hitems => ?_⟩
  rw [hreached.sessions session hsession]
  have hfile : st.fs (v.session path).path = some bytes := hreached.file
  have hkeys : (v.session path).keys = v.keys := rfl
  have hfresh : env.Fresh m items.length :=
    ImportEnv.fresh_of_nodup hreached.keys_drawn (authenticate_length_le hitems) hdraws
  have hiff := hreached.stored.allOrNothing_iff hfile hkeys hfresh
  simp only [importBundle, FsM.bind_apply, FsM.lift, hitems]
  exact hiff

-- ================================================================ samples

/-- A bundle that authenticates to one note. -/
theorem sample_bundle :
    ∃ bundle, authenticate Platform.transparent bundle samplePassword = .ok [sampleItem] := by
  obtain ⟨st, v, m, fs', bytes', -, -, -, -, -, hfs', hstored, hlive⟩ :=
    @sample_added Unit _ (storedFrameLen_lt sampleItem_withinLimits)
  have hfile : fs' (v.session samplePath).path = some bytes' := hfs'
  have hitems : liveItems m = [sampleItem] := by
    rw [liveItems, hlive]
    rfl
  have hall : AllWithinLimits m := by
    intro id item hmem
    rw [hlive] at hmem
    obtain ⟨-, rfl⟩ := Prod.mk.inj (List.mem_singleton.mp hmem)
    exact sampleItem_withinLimits
  have hreads : ∀ i : Nat, ((fun _ => IoFaults.none : Nat → IoFaults) i).read
    = false := fun _ => rfl
  have hlen : itemSetLen m + tagLen < 2 ^ 32 := by
    rw [itemSetLen, hitems]
    decide
  have hpassphrase : samplePassword ≠ [] := by decide
  obtain ⟨bundle, hbundle⟩ : ∃ bundle, (exportBundle Platform.transparent (fun _ => IoFaults.none)
      (some (List.Vector.replicate 24 0)) (v.session samplePath) samplePassword fs').1
        = .ok bundle :=
    (hstored.exists_exportBundle hfile rfl Platform.transparent_total hpassphrase hreads).mpr
      ⟨hall, hlen⟩
  obtain ⟨-, -, hauth⟩ := hstored.of_exportBundle hfile rfl (Prod.ext hbundle rfl)
  refine ⟨bundle, ?_⟩
  rw [hauth, hitems, if_pos (by decide)]

/-- An import of one item whose `add` meets `io`. -/
def importEnvWith (io : IoFaults) : ImportEnv where
  adds i :=
    { draws := { drawsWith zeroId zeroId with recordId := if i = 0 then some zeroId else none }
      io }
  deletes _ := sampleEnv

theorem importEnvWith_drawn (io : IoFaults) :
    ((List.range maxExportItemCount).filterMap (importEnvWith io).idAt).Nodup := by
  have hcount : maxExportItemCount = 4095 + 1 := rfl
  have hrest : ((List.range 4095).map Nat.succ).filterMap (importEnvWith io).idAt = [] := by
    rw [List.filterMap_eq_nil_iff]
    intro i hi
    obtain ⟨j, -, rfl⟩ := List.mem_map.mp hi
    rfl
  have hfirst : (importEnvWith io).idAt 0 = some zeroId := rfl
  rw [hcount, List.range_succ_eq_map, List.filterMap_cons_some hfirst, hrest]
  exact List.nodup_singleton zeroId

/-- The promise of an import in which nothing fails. -/
theorem import_allOrNothing_iff_of_none :
    ∃ (st : VaultState) (v : VaultIdentity Platform.transparent) (m : ItemMap)
      (session : UnlockedVault) (bundle : Bytes),
      History Platform.transparent samplePath samplePassword noFiles st ([] : Calls Unit)
      ∧ session ∈ st.sessions
      ∧ authenticate Platform.transparent bundle samplePassword = .ok [sampleItem]
      ∧ AllOrNothing v samplePath m [sampleItem]
        (importBundle Platform.transparent (importEnvWith IoFaults.none) session bundle
          samplePassword st.fs) := by
  obtain ⟨st, session, hhistory, hsession, -⟩ := @sample_unlocked Unit
  obtain ⟨bundle, hbundle⟩ := sample_bundle
  obtain ⟨v, m, bytes, hreached, hall⟩ := import_allOrNothing_iff hhistory List.nodup_nil
  refine ⟨st, v, m, session, bundle, hhistory, hsession, hbundle, ?_⟩
  refine (hall session hsession _ bundle samplePassword _ ?_ hbundle).mpr ?_
  · rw [drawnIds, List.flatMap_nil, List.nil_append]
    exact importEnvWith_drawn IoFaults.none
  · rintro ⟨k, -, -, -, hafter, -⟩
    cases hafter

/-- An import that reports a rollback and leaves its item behind. -/
theorem import_leaves_item_behind :
    ∃ (st : VaultState) (session : UnlockedVault) (bundle : Bytes) (fs' : Fs),
      History Platform.transparent samplePath samplePassword noFiles st ([] : Calls Unit)
      ∧ session ∈ st.sessions
      ∧ authenticate Platform.transparent bundle samplePassword = .ok [sampleItem]
      ∧ importBundle Platform.transparent (importEnvWith { parentSync := true }) session bundle
          samplePassword st.fs = (.error rolledBack, fs')
      ∧ (list Platform.transparent IoFaults.none session st.fs).1 = .ok []
      ∧ (list Platform.transparent IoFaults.none session fs').1
        = .ok [sampleItem.view.summary zeroId] := by
  obtain ⟨st, v, bytes, hhistory, hsession, hoff, -, hfs, hstored⟩ := @sample_reached Unit
  obtain ⟨bundle, hbundle⟩ := sample_bundle
  have hfile : st.fs (v.session samplePath).path = some bytes := hfs
  have hfresh : (importEnvWith { parentSync := true }).Fresh TombstoneMap.empty
      [sampleItem].length := by
    intro i hi id hid
    obtain rfl : i = 0 := Nat.lt_one_iff.mp hi
    exact ⟨List.not_mem_nil, fun j hj => absurd hj (Nat.not_lt_zero j)⟩
  have hcommits : (importEnvWith { parentSync := true }).AddCommits (v.session samplePath).path
      st.fs TombstoneMap.empty [sampleItem] 0 :=
    ⟨sampleItem, rfl, drawsWith_forAdd zeroId zeroId, storedFrameLen_lt sampleItem_withinLimits,
      by decide, rfl, zeroId, rfl, rfl, samplePath_tmp _,
        hoff _ (samplePath_tmp_ne zeroId), rfl, rfl, rfl⟩
  obtain ⟨e, fs', bytes', m', hrun, hfs', hstored', -, hcases⟩ :=
    hstored.importLoop_of_unclean hfile rfl hfresh (by decide : 0 < [sampleItem].length)
      (fun i hi => absurd hi (Nat.not_lt_zero i)) (fun hclean => by cases hclean.2)
  rcases hcases with ⟨hnot, -⟩ | ⟨-, ⟨-, hdeletes⟩ | ⟨rfl, -, id, item, hid, hitem, hlive⟩⟩
  · exact absurd hcommits hnot
  · exact absurd (fun j hj => absurd hj (Nat.not_lt_zero j)) hdeletes
  · have hlist : m'.live = [(zeroId, sampleItem)] := by
      cases hid
      cases hitem
      exact hlive
    refine ⟨st, _, bundle, fs', hhistory, hsession, hbundle, ?_, ?_, ?_⟩
    · simp only [importBundle, FsM.bind_apply, FsM.lift, hbundle]
      exact hrun
    · refine (hstored.list_eq_ok hfile rfl rfl).mpr ⟨?_, rfl⟩
      intro id item hmem
      cases hmem
    · refine (hstored'.list_eq_ok hfs' rfl rfl).mpr ⟨?_, ?_⟩
      · intro id item hmem
        rw [hlist] at hmem
        obtain ⟨-, rfl⟩ := Prod.mk.inj (List.mem_singleton.mp hmem)
        exact sampleItem_withinLimits
      · rw [liveSummaries, hlist]
        rfl

end MeissnerSeal
