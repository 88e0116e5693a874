/-
A vault in use: every history of sessions and calls on the file that one
`create` left.

# Reachable states

`History` collects what can happen to a vault, in any order and with any
faults: an `unlock` with the creation password adds a session, a call in
one of the sessions changes the file system. `History.stored` is what
holds of every state reached: the file stores a map under one identity,
whose ids were all drawn, and every session is that identity's. The one
assumption is on the generator: no id is drawn twice.
-/
import MeissnerSeal.Export.Import

namespace MeissnerSeal

open ByteCodec ExceptRules

variable {β : Type}

/-- A call on an unlocked vault. -/
inductive StoreCall (β : Type) where
  | mutate (env : Env) (call : Mutation)
  | list (io : IoFaults)
  | withItem (io : IoFaults) (id : ItemId) (f : DecodedItem → Res β)
  | importBundle (env : ImportEnv) (bundle passphrase : Bytes)

/-- What a call returns. -/
inductive Reply (β : Type) where
  | mutated (r : Res (Option ItemId))
  | listed (r : Res (List ItemSummary))
  | viewed (r : Res β)
  | imported (r : Res (List ItemId))

variable (platform : Platform)

def StoreCall.run (session : UnlockedVault) : StoreCall β → Fs → Reply β × Fs
  | .mutate env call, fs =>
      let (r, fs) := call.run platform env session fs
      (.mutated r, fs)
  | .list io, fs =>
      let (r, fs) := MeissnerSeal.list platform io session fs
      (.listed r, fs)
  | .withItem io id f, fs =>
      let (r, fs) := MeissnerSeal.withItem platform io session id f fs
      (.viewed r, fs)
  | .importBundle env bundle passphrase, fs =>
      let (r, fs) := MeissnerSeal.importBundle platform env session bundle passphrase fs
      (.imported r, fs)

/-- The ids a call may draw for new records. -/
def StoreCall.drawn : StoreCall β → List ItemId
  | .mutate env (.add _) => env.draws.recordId.toList
  | .mutate _ _ => []
  | .list _ => []
  | .withItem _ _ _ => []
  | .importBundle env _ _ => (List.range maxExportItemCount).filterMap env.idAt

/-- A file system and the sessions opened on the vault so far. -/
structure VaultState where
  fs : Fs
  sessions : List UnlockedVault

/-- The calls and replies of a history, oldest first. -/
abbrev Calls (β : Type) := List (StoreCall β × Reply β)

/-- Everything that can have happened since `create` put a vault at `path`. -/
inductive History (path : Path) (password : Bytes) (fs₀ : Fs) : VaultState → Calls β → Prop where
  | created {io : IoFaults} {draws : CreateDraws} {fs : Fs}
      (hcreate : create platform io draws path password fs₀ = (.ok (), fs)) :
      History path password fs₀ ⟨fs, []⟩ []
  | unlocked {st : VaultState} {calls : Calls β} {io : IoFaults} {session : UnlockedVault} {fs : Fs}
      (hhistory : History path password fs₀ st calls)
      (hunlock : unlock platform io path password st.fs = (.ok session, fs)) :
      History path password fs₀ ⟨fs, session :: st.sessions⟩ calls
  | called {st : VaultState} {calls : Calls β} {session : UnlockedVault}
      (hhistory : History path password fs₀ st calls) (hsession : session ∈ st.sessions)
      (call : StoreCall β) :
      History path password fs₀ ⟨(call.run platform session st.fs).2, st.sessions⟩
        (calls ++ [(call, (call.run platform session st.fs).1)])

/-- Every id the calls of a history may have drawn. -/
def drawnIds (calls : Calls β) : List ItemId := calls.flatMap fun entry => entry.1.drawn

@[simp] theorem drawnIds_append (calls : Calls β) (call : StoreCall β) (reply : Reply β) :
    drawnIds (calls ++ [(call, reply)]) = drawnIds calls ++ call.drawn := by
  simp [drawnIds]

variable {platform} {path : Path} {password : Bytes} {fs₀ : Fs} {st : VaultState} {calls : Calls β}

-- =============================================================== drawing

/-- Of distinct draws each is new to the ids before it. -/
theorem ImportEnv.idAt_new {env : ImportEnv} {ids : List ItemId} {n : Nat}
    (hn : n ≤ maxExportItemCount)
    (hnodup : (ids ++ (List.range maxExportItemCount).filterMap env.idAt).Nodup) :
    ∀ i < n, ∀ id, env.idAt i = some id → id ∉ ids ∧ ∀ j < i, env.idAt j ≠ some id := by
  intro i hi id hid
  rw [List.nodup_append] at hnodup
  obtain ⟨-, hdraws, hdisjoint⟩ := hnodup
  have hmem : id ∈ (List.range maxExportItemCount).filterMap env.idAt :=
    List.mem_filterMap.mpr ⟨i, List.mem_range.mpr (by omega), hid⟩
  refine ⟨fun hold => hdisjoint id hold id hmem rfl, fun j hj hjd => ?_⟩
  rw [List.nodup_iff_pairwise_ne, List.pairwise_filterMap, List.pairwise_iff_getElem] at hdraws
  have hne := hdraws j i (by rw [List.length_range]; omega) (by rw [List.length_range]; omega) hj
  rw [List.getElem_range, List.getElem_range] at hne
  exact hne id hjd id hid rfl

/-- Distinct draws beside the old keys are fresh for an import. -/
theorem ImportEnv.fresh_of_nodup {env : ImportEnv} {m : ItemMap} {ids : List ItemId} {n : Nat}
    (hkeys : ∀ id ∈ m.keys, id ∈ ids) (hn : n ≤ maxExportItemCount)
    (hnodup : (ids ++ (List.range maxExportItemCount).filterMap env.idAt).Nodup) :
    env.Fresh m n := by
  intro i hi id hid
  obtain ⟨hnew, hdistinct⟩ := ImportEnv.idAt_new hn hnodup i hi id hid
  exact ⟨fun hold => hnew (hkeys id hold), hdistinct⟩

/-- A draw distinct from all before is fresh. -/
theorem Mutation.fresh_of_nodup {env : Env} {call : Mutation} {m : ItemMap} {ids : List ItemId}
    (hkeys : ∀ id ∈ m.keys, id ∈ ids)
    (hnodup : (ids ++ (StoreCall.mutate env call : StoreCall β).drawn).Nodup) :
    call.Fresh env.draws m := by
  cases call with
  | add item =>
      intro id hid hmem
      have hdrawn : id ∈ (StoreCall.mutate env (.add item) : StoreCall β).drawn := by
        simp [StoreCall.drawn, hid]
      exact (List.nodup_append.mp hnodup).2.2 id (hkeys id hmem) id hdrawn rfl
  | update id item => exact trivial
  | delete id => exact trivial

theorem Mutation.keys_apply_drawn {env : Env} {call : Mutation} {m : ItemMap} {ids : List ItemId}
    (hkeys : ∀ id ∈ m.keys, id ∈ ids) :
    ∀ id ∈ (call.apply env.draws m).keys,
      id ∈ ids ++ (StoreCall.mutate env call : StoreCall β).drawn := by
  intro id hid
  rcases call.mem_keys_apply hid with hmem | ⟨item, rfl, hdraw⟩
  · exact List.mem_append_left _ (hkeys id hmem)
  · exact List.mem_append_right _ (by simp [StoreCall.drawn, hdraw])

-- ============================================================ reachability

/-- What holds of a state reached: the vault's identity, what the file
stores, and the sessions. -/
structure Reached (v : VaultIdentity platform) (path : Path) (st : VaultState) (ids : List ItemId)
    (m : ItemMap) (bytes : Bytes) : Prop where
  file : st.fs path = some bytes
  stored : Stored v m bytes
  keys_drawn : ∀ id ∈ m.keys, id ∈ ids
  sessions : ∀ session ∈ st.sessions, session = v.session path

/-- One call on a stored file, whatever fails in it. -/
theorem Stored.after_call {v : VaultIdentity platform} {m : ItemMap} {bytes : Bytes} {fs : Fs}
    {ids : List ItemId} (h : Stored v m bytes) (hfs : fs path = some bytes)
    (hkeys : ∀ id ∈ m.keys, id ∈ ids) (call : StoreCall β) (hnodup : (ids ++ call.drawn).Nodup) :
    ∃ m' bytes', (call.run platform (v.session path) fs).2 path = some bytes'
      ∧ Stored v m' bytes' ∧ ∀ id ∈ m'.keys, id ∈ ids ++ call.drawn := by
  have hold : ∀ id ∈ m.keys, id ∈ ids ++ call.drawn :=
    fun id hid => List.mem_append_left _ (hkeys id hid)
  cases call with
  | list io =>
      refine ⟨m, bytes, ?_, h, hold⟩
      show (list platform io (v.session path) fs).2 path = some bytes
      rw [list_fs, hfs]
  | withItem io id f =>
      refine ⟨m, bytes, ?_, h, hold⟩
      show (withItem platform io (v.session path) id f fs).2 path = some bytes
      rw [withItem_fs, hfs]
  | mutate env call =>
      show ∃ m' bytes', (call.run platform env (v.session path) fs).2 path = some bytes' ∧ _
      have hfresh := Mutation.fresh_of_nodup hkeys hnodup
      by_cases hcommits : call.Commits env path fs m
      · obtain ⟨out, hrun, hstored⟩ : ∃ out, call.run platform env (v.session path) fs
            = (if env.io.afterRename then .error .io else .ok (call.reply env.draws),
                fs.set path (some out)) ∧ Stored v (call.apply env.draws m) out :=
          h.run_of_commits hfs rfl hfresh hcommits
        refine ⟨_, out, ?_, hstored, ?_⟩
        · rw [hrun]
          exact Fs.set_self ..
        · exact Mutation.keys_apply_drawn hkeys
      · have hfile : fs (v.session path).path = some bytes := hfs
        obtain ⟨fs', hkeep, hrun⟩ := h.run_of_not_commits hfile rfl hcommits
        refine ⟨m, bytes, ?_, h, hold⟩
        rcases hrun with ⟨e, hrun⟩ | ⟨hrun, -, -⟩
        · rw [hrun]
          exact hkeep
        · rw [hrun]
          exact hkeep
  | importBundle env bundle passphrase =>
      show ∃ m' bytes', (importBundle platform env (v.session path) bundle passphrase fs).2 path
        = some bytes' ∧ _
      simp only [importBundle, FsM.bind_apply, FsM.lift]
      cases hitems : authenticate platform bundle passphrase with
      | error e => exact ⟨m, bytes, hfs, h, hold⟩
      | ok items =>
          have hle := authenticate_length_le hitems
          have hfresh : env.Fresh m items.length := ImportEnv.fresh_of_nodup hkeys hle hnodup
          obtain ⟨m', bytes', hfile, hstored, hids⟩ : ∃ m' bytes',
              (importLoop platform env (v.session path) [] items fs).2 path = some bytes'
              ∧ Stored v m' bytes'
              ∧ ∀ id ∈ m'.keys, id ∈ m.keys ∨ ∃ i < items.length, env.idAt i = some id :=
            h.importLoop_stored hfs rfl hfresh
          refine ⟨m', bytes', hfile, hstored, fun id hid => ?_⟩
          rcases hids id hid with hmem | ⟨i, hi, hdraw⟩
          · exact hold id hmem
          · refine List.mem_append_right _ (List.mem_filterMap.mpr ⟨i, ?_, hdraw⟩)
            exact List.mem_range.mpr (Nat.lt_of_lt_of_le hi hle)

/-- Every state a history reaches is a vault in order, as long as no id
is drawn twice. -/
theorem History.reached (h : History platform path password fs₀ st calls)
    (hnodup : (drawnIds calls).Nodup) :
    ∃ (v : VaultIdentity platform) (m : ItemMap) (bytes : Bytes), v.password = password
      ∧ Reached v path st (drawnIds calls) m bytes := by
  induction h with
  | created hcreate =>
      obtain ⟨v, bytes, hv, hstored, rfl, -⟩ := create_eq_ok hcreate
      refine ⟨v, TombstoneMap.empty, bytes, hv, Fs.set_self .., hstored, ?_, ?_⟩
      · intro id hid
        cases hid
      · intro session hsession
        cases hsession
  | unlocked _ hunlock ih =>
      obtain ⟨v, m, bytes, rfl, hreached⟩ := ih hnodup
      obtain ⟨rfl, rfl⟩ := hreached.stored.of_unlock hreached.file hunlock
      refine ⟨v, m, bytes, rfl, hreached.file, hreached.stored, hreached.keys_drawn, ?_⟩
      exact List.forall_mem_cons.mpr ⟨rfl, hreached.sessions⟩
  | called _ hsession call ih =>
      rw [drawnIds_append] at hnodup
      obtain ⟨v, m, bytes, hv, hreached⟩ := ih (List.nodup_append.mp hnodup).1
      rw [hreached.sessions _ hsession]
      obtain ⟨m', bytes', hfile, hstored, hids⟩ :=
        hreached.stored.after_call hreached.file hreached.keys_drawn call hnodup
      refine ⟨v, m', bytes', hv, hfile, hstored, ?_, hreached.sessions⟩
      rw [drawnIds_append]
      exact hids

/-- Where no id was drawn nothing is stored. -/
theorem Reached.eq_empty {v : VaultIdentity platform} {m : ItemMap} {bytes : Bytes}
    (h : Reached v path st [] m bytes) : m = TombstoneMap.empty := by
  have hkeys : m.entries.map Prod.fst = [] :=
    List.eq_nil_iff_forall_not_mem.mpr fun id hid => by cases h.keys_drawn id hid
  obtain ⟨entries, hnodup⟩ := m
  obtain rfl := List.map_eq_nil_iff.mp hkeys
  rfl

-- ============================================================== inhabited

/-- The file system after a call differs at the vault path only. -/
def AgreesOff (path : Path) (fs fs' : Fs) : Prop := ∀ p, p ≠ path → fs' p = fs p

/-- Where nothing fails, a vault can be created and unlocked. -/
theorem exists_unlocked {draws : CreateDraws} (htotal : platform.kdf.Total)
    (hdraws : draws.Drawn) (hpassword : password ≠ []) (hpath : path.HasTmp)
    (hnone : ∀ p, fs₀ p = none) :
    ∃ st session, History platform path password fs₀ st ([] : Calls β) ∧ session ∈ st.sessions
      ∧ AgreesOff path fs₀ st.fs := by
  obtain ⟨fs, hcreate⟩ : ∃ fs, create platform IoFaults.none draws path password fs₀
      = (.ok (), fs) :=
    exists_create htotal hdraws hpassword rfl (hnone path)
      (fun recordId _ => ⟨rfl, uniqueTmpPath_namesFile_iff.mpr hpath, hnone _, rfl, rfl, rfl⟩) rfl
  obtain ⟨v, bytes, rfl, hstored, rfl, -⟩ := create_eq_ok hcreate
  have hunlock := hstored.unlock_eq (Fs.set_self fs₀ path (some bytes)) IoFaults.none rfl
  rw [if_pos (by decide)] at hunlock
  exact ⟨_, _, (History.created hcreate).unlocked hunlock, List.mem_cons_self ..,
    fun p hp => Fs.set_of_ne _ _ hp⟩

/-- A small vault on an empty file system. -/
def samplePath : Path := ⟨"/vaults/", "personal.msv"⟩

theorem samplePath_hasTmp : samplePath.HasTmp := by decide

theorem samplePath_tmp (seed : U8Array 16) : (uniqueTmpPath samplePath seed).NamesFile :=
  uniqueTmpPath_namesFile_iff.mpr samplePath_hasTmp

theorem samplePath_tmp_ne (seed : U8Array 16) : uniqueTmpPath samplePath seed ≠ samplePath :=
  (uniqueTmpPath_apart samplePath seed (samplePath_tmp seed)).symm

def samplePassword : Bytes := utf8 "correct horse"
def noFiles : Fs := fun _ => none
def sampleItem : PlainItem := ⟨.secureNote, "note", [1, 2, 3], ["tag"]⟩

/-- Draws that all succeed, with a chosen record id and temporary-file seed. -/
def drawsWith (recordId uniqueSeed : U8Array 16) : Draws where
  recordId := some recordId
  revisionId := some (List.Vector.replicate 16 0)
  rek := some (List.Vector.replicate 32 0)
  payloadNonce := some (List.Vector.replicate 24 0)
  rekWrapNonce := some (List.Vector.replicate 24 0)
  frameNonce := some (List.Vector.replicate 24 0)
  tableNonce := some (List.Vector.replicate 24 0)
  uniqueSeed := some uniqueSeed

theorem drawsWith_forAdd (recordId uniqueSeed : U8Array 16) :
    (drawsWith recordId uniqueSeed).ForAdd where
  recordId := rfl
  revisionId := rfl
  rek := rfl
  payloadNonce := rfl
  rekWrapNonce := rfl
  frameNonce := rfl
  tableNonce := rfl
  uniqueSeed := rfl

def zeroId : ItemId := List.Vector.replicate 16 0

/-- An environment in which nothing fails. -/
def sampleEnv : Env where
  draws := drawsWith zeroId zeroId

theorem persists_of_faultless {env : Env} {fs : Fs} (recordId uniqueSeed : U8Array 16)
    (hdraws : env.draws = drawsWith recordId uniqueSeed) (hio : env.io = IoFaults.none)
    (hnone : ∀ p, p ≠ samplePath → fs p = none) : env.Persists samplePath fs := by
  rw [Env.Persists, hdraws, hio]
  exact ⟨rfl, uniqueSeed, rfl, rfl, samplePath_tmp uniqueSeed,
    hnone _ (samplePath_tmp_ne uniqueSeed), rfl, rfl, rfl⟩

theorem sampleEnv_persists {fs : Fs} (hoff : AgreesOff samplePath noFiles fs) :
    sampleEnv.Persists samplePath fs :=
  persists_of_faultless zeroId zeroId rfl rfl hoff

theorem sampleItem_withinLimits : sampleItem.WithinLimits := by decide

/-- A note with nothing but its secret. -/
def noteOf (secret : Bytes) : PlainItem := ⟨.secureNote, "", secret, []⟩

theorem storedFrameLen_noteOf (secret : Bytes) :
    storedFrameLen (some (noteOf secret)) = 282 + secret.length := by
  have hlabel : (utf8 "").length = 0 := rfl
  simp only [storedFrameLen, noteOf, PlainItem.payloadLen, hlabel, tagsLen, List.map_nil,
    List.sum_nil]
  omega

def sampleCreateDraws : CreateDraws where
  vaultId := some zeroId
  recordId := some zeroId
  revisionId := some zeroId
  headerNonce := some (List.Vector.replicate 24 0)
  rootKey := some (List.Vector.replicate 32 0)
  wrkNonce := some (List.Vector.replicate 24 0)
  tableNonce := some (List.Vector.replicate 24 0)
  createdAt := .ok 0

theorem sample_unlocked :
    ∃ st session, History Platform.transparent samplePath samplePassword noFiles st ([] : Calls β)
      ∧ session ∈ st.sessions ∧ AgreesOff samplePath noFiles st.fs := by
  have hdraws : sampleCreateDraws.Drawn := ⟨rfl, rfl, rfl, rfl, rfl, rfl, rfl, rfl⟩
  exact exists_unlocked Platform.transparent_total hdraws (by decide) samplePath_hasTmp fun _ => rfl

/-- What the sample vault stores: nothing yet. -/
theorem sample_reached :
    ∃ (st : VaultState) (v : VaultIdentity Platform.transparent) (bytes : Bytes),
      History Platform.transparent samplePath samplePassword noFiles st ([] : Calls β)
      ∧ v.session samplePath ∈ st.sessions ∧ AgreesOff samplePath noFiles st.fs
      ∧ v.password = samplePassword ∧ st.fs samplePath = some bytes
      ∧ Stored v TombstoneMap.empty bytes := by
  obtain ⟨st, session, hhistory, hsession, hoff⟩ := @sample_unlocked β
  obtain ⟨v, m, bytes, hv, hreached⟩ := hhistory.reached List.nodup_nil
  obtain rfl := hreached.sessions session hsession
  obtain rfl := hreached.eq_empty
  exact ⟨st, v, bytes, hhistory, hsession, hoff, hv, hreached.file, hreached.stored⟩

/-- The sample vault takes any item whose frame fits its length field. -/
theorem sample_added {item : PlainItem} (hlen : storedFrameLen (some item) < 2 ^ 32) :
    ∃ (st : VaultState) (v : VaultIdentity Platform.transparent) (m : ItemMap) (fs' : Fs)
      (bytes' : Bytes),
      History Platform.transparent samplePath samplePassword noFiles st ([] : Calls β)
      ∧ v.session samplePath ∈ st.sessions ∧ AgreesOff samplePath noFiles fs'
      ∧ v.password = samplePassword
      ∧ add Platform.transparent sampleEnv (v.session samplePath) item st.fs = (.ok zeroId, fs')
      ∧ fs' samplePath = some bytes' ∧ Stored v m bytes' ∧ m.live = [(zeroId, item)] := by
  obtain ⟨st, v, bytes, hhistory, hsession, hoff, hv, hfs, hstored⟩ := @sample_reached β
  have hfile : st.fs (v.session samplePath).path = some bytes := hfs
  have hnew : zeroId ∉ (TombstoneMap.empty : ItemMap).keys := List.not_mem_nil
  have hcommits : (Mutation.add item).Commits sampleEnv (v.session samplePath).path st.fs
      TombstoneMap.empty :=
    ⟨⟨drawsWith_forAdd zeroId zeroId, hlen, by decide⟩, sampleEnv_persists hoff⟩
  obtain ⟨out, hadd, hstored'⟩ := hstored.add_of_commits hfile rfl rfl hnew hcommits
  refine ⟨st, v, _, _, out, hhistory, hsession, ?_, hv, hadd, Fs.set_self .., hstored', rfl⟩
  intro p hp
  show Fs.set st.fs samplePath (some out) p = noFiles p
  rw [Fs.set_of_ne _ _ hp, hoff p hp]

/-- The history of that add. -/
theorem sample_added_history {item : PlainItem} (hlen : storedFrameLen (some item) < 2 ^ 32) :
    ∃ (st : VaultState) (v : VaultIdentity Platform.transparent) (m : ItemMap) (bytes : Bytes),
      History Platform.transparent samplePath samplePassword noFiles st
        ([(.mutate sampleEnv (.add item), .mutated (.ok (some zeroId)))] : Calls β)
      ∧ v.session samplePath ∈ st.sessions ∧ AgreesOff samplePath noFiles st.fs
      ∧ v.password = samplePassword ∧ st.fs samplePath = some bytes ∧ Stored v m bytes
      ∧ m.live = [(zeroId, item)] := by
  obtain ⟨st, v, m, fs', bytes, hhistory, hsession, hoff, hv, hadd, hfs, hstored, hlive⟩ :=
    @sample_added β _ hlen
  have hrun : StoreCall.run Platform.transparent (v.session samplePath)
      (.mutate sampleEnv (.add item) : StoreCall β) st.fs
        = (.mutated (.ok (some zeroId)), fs') := by
    simp only [StoreCall.run, Mutation.run, FsM.bind_apply, hadd, FsM.pure_apply]
  have hcalled := hhistory.called hsession (.mutate sampleEnv (.add item))
  rw [hrun] at hcalled
  exact ⟨_, v, m, bytes, hcalled, hsession, hoff, hv, hfs, hstored, hlive⟩

end MeissnerSeal
