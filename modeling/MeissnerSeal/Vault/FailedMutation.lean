/-
What a mutation that fails leaves at the vault path.

# Both sides of the rename

Every step before the rename fails with the file untouched. The two
after it, the open and the sync of the parent directory, fail with the
new file in place (`mutation_keeps_file_iff`). That the file really is
another is read off one field: the nonce of the record table, which a
rewrite draws anew.
-/
import MeissnerSeal.Vault.Unlockable
import MeissnerSeal.Item.Plans

namespace MeissnerSeal

open ByteCodec ExceptRules

variable {β : Type} {platform : Platform} {v : VaultIdentity platform} {m : ItemMap} {bytes : Bytes}
  {path : Path} {session : UnlockedVault} {fs : Fs} {env : Env} {call : Mutation}

/-- Where a vault file holds the nonce of its record table. -/
def tableNonceOffset : Nat := tableOffset + 4

/-- A rewrite puts the nonce it draws at its place. -/
theorem LoadedFrom.segAt_tableNonce {records records' : List PendingRecord} {draws : Draws}
    {loaded : LoadedVault} {out : Bytes} (h : LoadedFrom v records bytes loaded)
    (hwrite : rewrittenVault platform draws session loaded records' = .ok out) :
    ∃ nonce, draws.tableNonce = some nonce ∧ SegAt out tableNonceOffset nonce.toList := by
  have hheader := v.length_headerBytes
  have hwrk := v.length_wrkBytes
  have hmin : headerMinLen = 26 := rfl
  simp only [rewrittenVault, u32Len, bind_eq_ok, okOr_eq_ok, rejectIf_eq_ok, checkedAdd_eq_some,
    slice?_eq_some_iff, pure_eq_ok, Except.ok.injEq, h.bytes_eq, h.header_eq, h.wrkFrameOffset_eq,
    h.wrkFrameLen_eq] at hwrite
  obtain ⟨headerBytes, ⟨-, hheaderLen⟩, _, ⟨rfl, -⟩, wrkBytes, ⟨-, hwrkLen⟩, _, -, _, -, _, -,
    ⟨entries, frames⟩, -, table, htable, -, -, _, -, _, -, headerLen, -, tableLen, -, bodyLen, -,
    prefixBytes, hleading, rfl⟩ := hwrite
  obtain ⟨-, -, -, count, len, nonce, ciphertext, -, hdraw, -, -, rfl⟩ :=
    serializeSealedRecordTableV2_eq_ok.mp htable
  obtain ⟨hleadingLen, -, -, -, -, -, hrest⟩ :=
    segAt_front (headerBytes ++ (wrkBytes ++ (leU32 len ++ nonce.toList ++ ciphertext ++ frames)))
      hleading
  refine ⟨nonce, hdraw, ?_⟩
  simp only [segAt_append, length_leU32] at hrest
  obtain ⟨-, -, ⟨⟨-, hnonce⟩, -⟩, -⟩ := hrest
  have hoff : tableNonceOffset = 26 + headerBytes.length + wrkBytes.length + 4 := by
    simp only [tableNonceOffset, tableOffset]
    omega
  rw [hoff]
  simpa only [List.append_assoc, hmin] using hnonce

/-- The environment with another value for the table nonce it draws. -/
def Env.withTableNonce (env : Env) (nonce : Nonce) : Env :=
  { env with draws := { env.draws with tableNonce := env.draws.tableNonce.map fun _ => nonce } }

/-- Whether a call commits does not depend on what it draws there. -/
theorem Mutation.commits_withTableNonce {nonce : Nonce} :
    call.Commits (env.withTableNonce nonce) path fs m ↔ call.Commits env path fs m := by
  have hframe : (env.withTableNonce nonce).draws.ForFrame ↔ env.draws.ForFrame := by
    constructor
    · intro h
      exact ⟨h.revisionId, h.frameNonce, by simpa [Env.withTableNonce] using h.tableNonce,
        h.uniqueSeed⟩
    · intro h
      exact ⟨h.revisionId, h.frameNonce, by simpa [Env.withTableNonce] using h.tableNonce,
        h.uniqueSeed⟩
  have hitem : (env.withTableNonce nonce).draws.ForItem ↔ env.draws.ForItem := by
    constructor
    · intro h
      exact ⟨hframe.mp h.toForFrame, h.rek, h.payloadNonce, h.rekWrapNonce⟩
    · intro h
      exact ⟨hframe.mpr h.toForFrame, h.rek, h.payloadNonce, h.rekWrapNonce⟩
  have hadd : (env.withTableNonce nonce).draws.ForAdd ↔ env.draws.ForAdd := by
    constructor
    · intro h
      exact ⟨hitem.mp h.toForItem, h.recordId⟩
    · intro h
      exact ⟨hitem.mpr h.toForItem, h.recordId⟩
  have hpersists : (env.withTableNonce nonce).Persists path fs ↔ env.Persists path fs := Iff.rfl
  cases call with
  | add item => simp only [Mutation.Commits, Mutation.Ready, hadd, hpersists]
  | update id item => simp only [Mutation.Commits, Mutation.Ready, hitem, hpersists]
  | delete id => simp only [Mutation.Commits, Mutation.Ready, hframe, hpersists]

/-- A call that commits leaves the nonce it drew in the file. -/
theorem Stored.tableNonce_of_commits (h : Stored v m bytes) (hfs : fs session.path = some bytes)
    (hkeys : session.keys = v.keys) (hcommits : call.Commits env session.path fs m) :
    ∃ out nonce, call.run platform env session fs
        = (if env.io.afterRename then .error .io else .ok (call.reply env.draws),
            fs.set session.path (some out))
      ∧ env.draws.tableNonce = some nonce ∧ SegAt out tableNonceOffset nonce.toList := by
  obtain ⟨hready, hread, seed, hseed, hreach⟩ := hcommits
  obtain ⟨seed', out, hseed', hplan, -⟩ := h.plan_of_ready hkeys hready
  rw [hseed, Option.some.injEq] at hseed'
  subst hseed'
  obtain ⟨records, loaded, hload, hloaded, -⟩ := h.load hkeys
  obtain ⟨loaded', records', hload', hwrite⟩ := Mutation.rewritten_of_plan hplan
  rw [hload, Except.ok.injEq] at hload'
  subst hload'
  obtain ⟨nonce, hnonce, hseg⟩ := hloaded.segAt_tableNonce hwrite
  refine ⟨out, nonce, ?_, hnonce, hseg⟩
  rw [Mutation.run_eq_mutate, mutate_of_reachesRename hfs hread hplan hreach]

/-- Whatever the table nonce, a mutation that fails keeps the file,
unless it commits and then fails at the parent directory. -/
theorem Stored.keeps_file_iff (h : Stored v m bytes) (hfs : fs session.path = some bytes)
    (hkeys : session.keys = v.keys) (env : Env) (call : Mutation) :
    (∀ nonce e fs', call.run platform (env.withTableNonce nonce) session fs = (.error e, fs') →
        fs' session.path = some bytes)
      ↔ ¬ (env.io.afterRename = true ∧ call.Commits env session.path fs m) := by
  constructor
  · rintro hkeep ⟨hafter, hcommits⟩
    have hheld : ∀ nonce : Nonce, SegAt bytes tableNonceOffset nonce.toList := by
      intro nonce
      obtain ⟨out, drawn, hrun, hdrawn, hseg⟩ :=
        h.tableNonce_of_commits hfs hkeys (Mutation.commits_withTableNonce.mpr hcommits)
      have hafter' : (env.withTableNonce nonce).io.afterRename = true := hafter
      rw [hafter', if_pos rfl] at hrun
      have hsame := hkeep nonce _ _ hrun
      rw [Fs.set_self, Option.some.injEq] at hsame
      have hnonce : drawn = nonce := by
        simp only [Env.withTableNonce, Option.map_eq_some_iff] at hdrawn
        obtain ⟨-, -, heq⟩ := hdrawn
        exact heq.symm
      rw [← hsame, ← hnonce]
      exact hseg
    have heq : (List.Vector.replicate 24 (0 : UInt8)).toList
        = (List.Vector.replicate 24 (1 : UInt8)).toList :=
      (hheld _).unique (hheld _) rfl
    exact absurd heq (by decide)
  · intro hcond nonce e fs' hrun
    by_cases hcommits : call.Commits (env.withTableNonce nonce) session.path fs m
    · obtain ⟨out, -, hrun', -⟩ := h.tableNonce_of_commits hfs hkeys hcommits
      have hafter : (env.withTableNonce nonce).io.afterRename = false := by
        by_contra hnot
        have hfails : env.io.afterRename = true := Bool.eq_true_of_not_eq_false hnot
        exact hcond ⟨hfails, Mutation.commits_withTableNonce.mp hcommits⟩
      rw [hafter, hrun] at hrun'
      cases hrun'
    · obtain ⟨fs'', hkeep, hnot⟩ := h.run_of_not_commits hfs hkeys hcommits
      rcases hnot with ⟨e', hrun'⟩ | ⟨hrun', -⟩
      · rw [hrun, Prod.mk.injEq] at hrun'
        rw [hrun'.2]
        exact hkeep
      · rw [hrun] at hrun'
        cases hrun'

/-- In every reachable vault, for every mutation and every way its draws
and system calls fail: a call that fails leaves the file as it was,
unless it has something to write, gets past its rename, and only then
fails at the parent directory. -/
theorem mutation_keeps_file_iff {password : Bytes} {fs₀ : Fs} {st : VaultState} {calls : Calls β}
    (h : History platform path password fs₀ st calls) (hnodup : (drawnIds calls).Nodup) :
    ∃ (v : VaultIdentity platform) (m : ItemMap) (bytes : Bytes),
      Reached v path st (drawnIds calls) m bytes ∧ ∀ session ∈ st.sessions,
        ∀ (env : Env) (call : Mutation),
          (∀ nonce e fs', call.run platform (env.withTableNonce nonce) session st.fs
              = (.error e, fs') → fs' path = st.fs path)
            ↔ ¬ (env.io.afterRename = true ∧ call.Commits env path st.fs m) := by
  obtain ⟨v, m, bytes, -, hreached⟩ := h.reached hnodup
  refine ⟨v, m, bytes, hreached, fun session hsession env call => ?_⟩
  rw [hreached.sessions session hsession, hreached.file]
  have hfile : st.fs (v.session path).path = some bytes := hreached.file
  have hkeys : (v.session path).keys = v.keys := rfl
  exact hreached.stored.keeps_file_iff hfile hkeys env call

/-- A failing rename keeps the file. -/
theorem mutation_keeps_file_iff_of_rename :
    ∃ (st : VaultState) (session : UnlockedVault),
      History Platform.transparent samplePath samplePassword noFiles st ([] : Calls Unit)
      ∧ session ∈ st.sessions
      ∧ ∀ nonce e fs', (Mutation.add sampleItem).run Platform.transparent
            (Env.withTableNonce ⟨drawsWith zeroId zeroId, { rename := true }⟩ nonce) session st.fs
          = (.error e, fs') → fs' samplePath = st.fs samplePath := by
  obtain ⟨st, session, hhistory, hsession, -⟩ := @sample_unlocked Unit
  obtain ⟨v, m, bytes, hreached, hall⟩ := mutation_keeps_file_iff hhistory List.nodup_nil
  refine ⟨st, session, hhistory, hsession, (hall session hsession _ _).mpr ?_⟩
  rintro ⟨hafter, -⟩
  cases hafter

/-- A failing sync of the parent directory does not: the call returns an
error, and the item it was to add is in the file. -/
theorem parentSync_fails_after_write :
    ∃ (st : VaultState) (session : UnlockedVault) (fs' : Fs),
      History Platform.transparent samplePath samplePassword noFiles st ([] : Calls Unit)
      ∧ session ∈ st.sessions
      ∧ add Platform.transparent ⟨drawsWith zeroId zeroId, { parentSync := true }⟩ session
          sampleItem st.fs = (.error .io, fs')
      ∧ fs' samplePath ≠ st.fs samplePath
      ∧ (list Platform.transparent IoFaults.none session fs').1
        = .ok [sampleItem.view.summary zeroId] := by
  obtain ⟨st, v, bytes, hhistory, hsession, hoff, -, hfs, hstored⟩ := @sample_reached Unit
  have hfile : st.fs (v.session samplePath).path = some bytes := hfs
  have hnew : zeroId ∉ (TombstoneMap.empty : ItemMap).keys := List.not_mem_nil
  have hcommits : (Mutation.add sampleItem).Commits
      ⟨drawsWith zeroId zeroId, { parentSync := true }⟩ (v.session samplePath).path st.fs
      TombstoneMap.empty :=
    ⟨⟨drawsWith_forAdd zeroId zeroId, storedFrameLen_lt sampleItem_withinLimits, by decide⟩, rfl,
      zeroId, rfl, rfl, samplePath_tmp _,
        hoff _ (samplePath_tmp_ne zeroId), rfl, rfl, rfl⟩
  obtain ⟨out, hadd, hstored'⟩ := hstored.add_of_commits hfile rfl rfl hnew hcommits
  refine ⟨st, _, _, hhistory, hsession, hadd, ?_, ?_⟩
  · show Fs.set st.fs samplePath (some out) samplePath ≠ st.fs samplePath
    rw [Fs.set_self, hfs]
    intro hsame
    have hlen := hstored.length_eq
    rw [← Option.some.inj hsame, hstored'.length_eq] at hlen
    have hlonger : storedLen (TombstoneMap.empty.push zeroId sampleItem List.not_mem_nil)
        ≠ storedLen TombstoneMap.empty := by decide
    exact hlonger hlen
  · refine (hstored'.list_eq_ok (Fs.set_self ..) rfl rfl).mpr ⟨?_, rfl⟩
    intro id item hmem
    rw [TombstoneMap.live_push] at hmem
    obtain ⟨-, rfl⟩ := Prod.mk.inj (List.mem_singleton.mp hmem)
    exact sampleItem_withinLimits

end MeissnerSeal
