/-
Which of the program's own files `unlock` accepts.

# The map the calls make

`storedMap` is what a sequence of successful calls makes of the empty
map, computed from their arguments and draws. `unlock` refuses a file
over `maxVaultFileLen` and nothing else of what the writer produces; the
writer has no such limit, so a vault stays open exactly as long as the
file of that map is within it (`unlock_iff_storedLen`).
-/
import MeissnerSeal.Vault.Readable

namespace MeissnerSeal

open ByteCodec ExceptRules

variable {β : Type} {platform : Platform} {v : VaultIdentity platform} {m : ItemMap} {bytes : Bytes}
  {path : Path} {session : UnlockedVault} {fs : Fs}

/-- The items of an import, pushed under the ids its adds draw. -/
def ImportEnv.pushDrawn (env : ImportEnv) : Nat → List PlainItem → ItemMap → ItemMap
  | _, [], m => m
  | i, item :: items, m =>
      match env.idAt i with
      | some id => env.pushDrawn (i + 1) items (m.insert id item)
      | none => env.pushDrawn (i + 1) items m

/-- What a call that succeeds makes of the map. -/
def StoreCall.apply (platform : Platform) : StoreCall β → ItemMap → ItemMap
  | .mutate env call, m => call.apply env.draws m
  | .list _, m => m
  | .withItem _ _ _, m => m
  | .importBundle env bundle passphrase, m =>
      match authenticate platform bundle passphrase with
      | .ok items => env.pushDrawn 0 items m
      | .error _ => m

/-- What a sequence of calls that succeed makes of the empty map. -/
def storedMap (platform : Platform) (calls : Calls β) : ItemMap :=
  calls.foldl (fun m entry => entry.1.apply platform m) TombstoneMap.empty

/-- A call that writes has returned `Ok`. -/
def Reply.WroteOk : Reply β → Prop
  | .mutated r => ∃ value, r = .ok value
  | .imported r => ∃ ids, r = .ok ids
  | .listed _ => True
  | .viewed _ => True

theorem storedMap_append (calls : Calls β) (call : StoreCall β) (reply : Reply β) :
    storedMap platform (calls ++ [(call, reply)]) = call.apply platform
      (storedMap platform calls) := by
  rw [storedMap, List.foldl_append]
  rfl

/-- A map extended by drawn ids is the items pushed. -/
theorem ImportEnv.pushDrawn_of_extends {env : ImportEnv} {m' : ItemMap} {i : Nat}
    {ids : List ItemId} {items : List PlainItem} (hlen : ids.length = items.length)
    (hids : ∀ j < items.length, ids[j]? = env.idAt (i + j))
    (h : m.Extends (ids.zip items) m') : env.pushDrawn i items m = m' := by
  induction items generalizing m i ids with
  | nil =>
      rw [List.zip_nil_right] at h
      exact h.eq_of_nil.symm
  | cons item items ih =>
      obtain ⟨id, ids, rfl⟩ := List.exists_cons_of_length_eq_add_one hlen
      obtain ⟨hnew, hrest⟩ := h.of_cons
      have hid : env.idAt i = some id := (hids 0 (Nat.zero_lt_succ _)).symm
      have hids' : ∀ j < items.length, ids[j]? = env.idAt (i + 1 + j) := by
        intro j hj
        have hnext := hids (j + 1) (Nat.succ_lt_succ hj)
        rw [List.getElem?_cons_succ] at hnext
        rw [hnext, Nat.add_right_comm, Nat.add_assoc]
      simp only [pushDrawn, hid, TombstoneMap.insert_of_not_mem item hnew]
      exact ih (Nat.succ.inj hlen) hids' hrest

/-- A call that writes and succeeds leaves a file that stores the
map it makes. -/
theorem Stored.after_ok {call : StoreCall β} {ids : List ItemId} (h : Stored v m bytes)
    (hfs : fs path = some bytes) (hkeys : ∀ id ∈ m.keys, id ∈ ids)
    (hnodup : (ids ++ call.drawn).Nodup)
    (hok : (call.run platform (v.session path) fs).1.WroteOk) :
    ∃ bytes', (call.run platform (v.session path) fs).2 path = some bytes'
      ∧ Stored v (call.apply platform m) bytes'
      ∧ ∀ id ∈ (call.apply platform m).keys, id ∈ ids ++ call.drawn := by
  have hold : ∀ id ∈ m.keys, id ∈ ids ++ call.drawn :=
    fun id hid => List.mem_append_left _ (hkeys id hid)
  have hfile : fs (v.session path).path = some bytes := hfs
  have hsession : (v.session path).keys = v.keys := rfl
  cases call with
  | list io =>
      refine ⟨bytes, ?_, h, hold⟩
      show (list platform io (v.session path) fs).2 path = some bytes
      rw [list_fs, hfs]
  | withItem io id f =>
      refine ⟨bytes, ?_, h, hold⟩
      show (withItem platform io (v.session path) id f fs).2 path = some bytes
      rw [withItem_fs, hfs]
  | mutate env call =>
      have hfresh := Mutation.fresh_of_nodup hkeys hnodup
      have hok' : ∃ r, (call.run platform env (v.session path) fs).1 = .ok r := hok
      obtain ⟨r, hr⟩ := hok'
      have hrun : call.run platform env (v.session path) fs
          = (.ok r, (call.run platform env (v.session path) fs).2) := Prod.ext hr rfl
      obtain ⟨out, hout, hstored⟩ := h.after_run_ok hfile hsession hfresh hrun
      exact ⟨out, hout, hstored, Mutation.keys_apply_drawn hkeys⟩
  | importBundle env bundle passphrase =>
      have hok' : ∃ r,
        (importBundle platform env (v.session path) bundle passphrase fs).1 = .ok r :=
        hok
      obtain ⟨r, hr⟩ := hok'
      have hfresh : env.Fresh m maxExportItemCount :=
        ImportEnv.fresh_of_nodup hkeys le_rfl hnodup
      obtain ⟨items, hitems, hlen, out, m', hout, hstored, hextends, hids⟩ :=
        h.of_importBundle hfile hsession hfresh (Prod.ext hr rfl)
      have hpush : env.pushDrawn 0 items m = m' :=
        ImportEnv.pushDrawn_of_extends hlen (fun j hj => by rw [Nat.zero_add]; exact hids j hj)
          hextends
      have hle := authenticate_length_le hitems
      refine ⟨out, hout, ?_, ?_⟩
      · simp only [StoreCall.apply, hitems, hpush]
        exact hstored
      · intro id hid
        simp only [StoreCall.apply, hitems, hpush] at hid
        rw [hextends.keys_eq, List.map_fst_zip (Nat.le_of_eq hlen), List.mem_append] at hid
        rcases hid with hid | hid
        · exact hold id hid
        · obtain ⟨i, hi, rfl⟩ := List.getElem_of_mem hid
          have hdraw := hids i (hlen ▸ hi)
          rw [List.getElem?_eq_getElem hi] at hdraw
          refine List.mem_append_right _ (List.mem_filterMap.mpr ⟨i, ?_, hdraw.symm⟩)
          exact List.mem_range.mpr (by omega)

/-- A history of calls that succeed leaves a file that stores the
map they make. -/
theorem History.storedMap {password : Bytes} {fs₀ : Fs} {st : VaultState} {calls : Calls β}
    (h : History platform path password fs₀ st calls)
    (hok : ∀ entry ∈ calls, entry.2.WroteOk) (hnodup : (drawnIds calls).Nodup) :
    ∃ (v : VaultIdentity platform) (bytes : Bytes), v.password = password
      ∧ Reached v path st (drawnIds calls) (storedMap platform calls) bytes := by
  induction h with
  | created hcreate =>
      obtain ⟨v, bytes, hv, hstored, rfl, -⟩ := create_eq_ok hcreate
      refine ⟨v, bytes, hv, Fs.set_self .., hstored, ?_, ?_⟩
      · intro id hid
        cases hid
      · intro session hsession
        cases hsession
  | unlocked _ hunlock ih =>
      obtain ⟨v, bytes, rfl, hreached⟩ := ih hok hnodup
      obtain ⟨rfl, rfl⟩ := hreached.stored.of_unlock hreached.file hunlock
      refine ⟨v, bytes, rfl, hreached.file, hreached.stored, hreached.keys_drawn, ?_⟩
      exact List.forall_mem_cons.mpr ⟨rfl, hreached.sessions⟩
  | called _ hsession call ih =>
      rw [drawnIds_append] at hnodup ⊢
      obtain ⟨v, bytes, hv, hreached⟩ :=
        ih (fun entry hmem => hok entry (List.mem_append_left _ hmem))
          (List.nodup_append.mp hnodup).1
      have hcall := hok _ (List.mem_append_right _ (List.mem_singleton_self _))
      rw [hreached.sessions _ hsession] at hcall ⊢
      obtain ⟨bytes', hfile, hstored, hids⟩ :=
        hreached.stored.after_ok hreached.file hreached.keys_drawn hnodup hcall
      rw [storedMap_append]
      exact ⟨v, bytes', hv, hfile, hstored, hids, hreached.sessions⟩

/-- After any history of calls that succeed, `unlock` with the creation
password accepts the vault exactly when the file of the map the calls
made is at most `maxVaultFileLen` long. -/
theorem unlock_iff_storedLen {password : Bytes} {fs₀ : Fs} {st : VaultState} {calls : Calls β}
    {io : IoFaults} (h : History platform path password fs₀ st calls)
    (hok : ∀ entry ∈ calls, entry.2.WroteOk) (hnodup : (drawnIds calls).Nodup)
    (hread : io.read = false) :
    (∃ session, (unlock platform io path password st.fs).1 = .ok session)
      ↔ storedLen (storedMap platform calls) ≤ maxVaultFileLen := by
  obtain ⟨v, bytes, rfl, hreached⟩ := h.storedMap hok hnodup
  rw [hreached.stored.unlock_eq hreached.file io hread]
  by_cases hle : storedLen (storedMap platform calls) ≤ maxVaultFileLen
  · rw [if_pos hle]
    exact ⟨fun _ => hle, fun _ => ⟨v.session path, rfl⟩⟩
  · rw [if_neg hle]
    refine ⟨?_, fun hle' => absurd hle' hle⟩
    rintro ⟨session, hsession⟩
    cases hsession

/-- Every record's frame is in the file. -/
theorem storedFrameLen_le_storedLen {id : ItemId} {content : Option PlainItem}
    (h : m.status id = some content) : storedFrameLen content ≤ storedLen m := by
  have hmem : storedFrameLen content ∈ m.entries.map fun entry => storedFrameLen entry.2 :=
    List.mem_map.mpr ⟨(id, content), TombstoneMap.status_eq_some.mp h, rfl⟩
  have hle := List.le_sum_of_mem hmem
  rw [storedLen, imageLen]
  omega

/-- A note that `unlock` accepts. -/
theorem unlock_iff_storedLen_of_sampleItem :
    ∃ (st : VaultState) (calls : Calls Unit) (session : UnlockedVault),
      History Platform.transparent samplePath samplePassword noFiles st calls
      ∧ storedMap Platform.transparent calls
        = TombstoneMap.empty.insert zeroId sampleItem
      ∧ (unlock Platform.transparent IoFaults.none samplePath samplePassword st.fs).1
        = .ok session := by
  obtain ⟨st, -, -, -, hhistory, -⟩ :=
    @sample_added_history Unit _ (storedFrameLen_lt sampleItem_withinLimits)
  have hok : ∀ entry ∈ ([(.mutate sampleEnv (.add sampleItem),
      .mutated (.ok (some zeroId)))] : Calls Unit), entry.2.WroteOk := by
    intro entry hmem
    rw [List.mem_singleton.mp hmem]
    exact ⟨some zeroId, rfl⟩
  have hread : IoFaults.none.read = false := rfl
  obtain ⟨session, hunlock⟩ :=
    (unlock_iff_storedLen hhistory hok (List.nodup_singleton zeroId) hread).mpr (by decide)
  exact ⟨st, _, session, hhistory, rfl, hunlock⟩

/-- A secret as long as the longest file `unlock` reads. -/
def fillingItem : PlainItem := noteOf (List.replicate maxVaultFileLen 0)

theorem storedFrameLen_fillingItem : storedFrameLen (some fillingItem) = 67109146 := by
  rw [fillingItem, storedFrameLen_noteOf, List.length_replicate]
  rfl

/-- The vault that has accepted it is not accepted again. -/
theorem fillingItem_not_unlocked :
    ∃ (st : VaultState) (session : UnlockedVault) (fs' : Fs),
      History Platform.transparent samplePath samplePassword noFiles st ([] : Calls Unit)
      ∧ session ∈ st.sessions
      ∧ add Platform.transparent sampleEnv session fillingItem st.fs = (.ok zeroId, fs')
      ∧ ∀ io reopened,
        (unlock Platform.transparent io samplePath samplePassword fs').1 ≠ .ok reopened := by
  have hlen : storedFrameLen (some fillingItem) < 2 ^ 32 := by
    rw [storedFrameLen_fillingItem]
    decide
  obtain ⟨st, v, m, fs', bytes', hhistory, hsession, -, hv, hadd, hfs', hstored, hlive⟩ :=
    sample_added hlen
  refine ⟨st, _, fs', hhistory, hsession, hadd, fun io reopened hunlock => ?_⟩
  rw [← hv] at hunlock
  cases hread : io.read with
  | true =>
      simp only [unlock, FsM.bind_apply, FsM.lift, rejectIf_neg _ v.password_ne, readFile, hread,
        if_true, reduceCtorEq] at hunlock
  | false =>
      have hfit : storedFrameLen (some fillingItem) ≤ storedLen m := by
        have hmem : (zeroId, fillingItem) ∈ m.live := hlive ▸ List.mem_singleton_self _
        exact storedFrameLen_le_storedLen (TombstoneMap.mem_live.mp hmem)
      have hmax : maxVaultFileLen = 67108864 := rfl
      rw [storedFrameLen_fillingItem] at hfit
      rw [hstored.unlock_eq hfs' io hread, if_neg (by omega)] at hunlock
      cases hunlock

end MeissnerSeal
