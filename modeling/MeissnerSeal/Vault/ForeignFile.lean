/-
What a session reads off a file it has not written.

# The file

Anyone may put any bytes at the path of a vault. What stays out of reach
are the keys: under an ideal cipher nothing opens under them but what the
calls of the history have sealed.

# The items

So whatever stands at the path, every item a view is handed and every line
of a listing was written under its id by a call of the history
(`items_authentic`). Which of the items written under it, and whether it has
been deleted since, the session does not know: an older file is a file too.
-/
import MeissnerSeal.Vault.FrameBinding

namespace MeissnerSeal

open ByteCodec ExceptRules

variable {β : Type} {platform : Platform} {v : VaultIdentity platform} {calls : Calls β}
  {loaded : LoadedVault} {entry : RecordTableEntry} {decoded : DecodedItem} {path : Path}
  {bytes : Bytes} {recordId revisionId : U8Array 16} {nonce : Nonce} {ciphertext : Bytes}
  {header : VaultHeader}

-- =================================================================== the log

/-- What the owner of the vault seals: its log, in which nothing is sealed
as an item of another header. -/
def VaultIdentity.OwnLog (v : VaultIdentity platform) (calls : Calls β) (s : Sealing) : Prop :=
  v.ItemLog calls s ∧ ∀ header recordId revisionId,
    s.aad = (itemRecordAad header recordId revisionId recordKindItem).toList →
      s.aad = (itemRecordAad v.header recordId revisionId recordKindItem).toList

/-- What reading the items a file lists asks the cipher to decrypt. -/
def LoadedVault.Asks (platform : Platform) (keys : UnlockedKeys) (loaded : LoadedVault)
    (s : Sealing) :
    Prop :=
  ∃ entry ∈ loaded.entries, entry.recordKind = recordKindItem
    ∧ ItemAsks platform keys loaded.header loaded.bytes entry s

/-- The two encryptions of an item are sealed as an item of the own header. -/
theorem VaultIdentity.ItemLog.own {s : Sealing} (h : v.ItemLog calls s)
    (haad : s.aad = (itemRecordAad v.header recordId revisionId recordKindItem).toList) :
    v.OwnLog calls s := by
  refine ⟨h, fun header recordId' revisionId' hsame => ?_⟩
  rw [haad] at hsame
  obtain ⟨-, rfl, rfl, -⟩ := aadBytes_inj hsame
  exact haad

/-- What opens under the wrapping key is a key some call wrapped. -/
theorem VaultIdentity.OwnLog.exists_wrap (h : v.OwnLog calls ⟨v.keys.itemWrapKey, nonce,
      (itemRecordAad header recordId revisionId recordKindItem).toList, ciphertext⟩)
    (hfresh : v.RekFresh calls) :
    ∃ rek : Key, rek ≠ v.keys.itemWrapKey
      ∧ platform.cipher.encrypt v.keys.itemWrapKey nonce rek.toList
        (itemRecordAad header recordId revisionId recordKindItem).toList = some ciphertext := by
  obtain ⟨hlog, hown⟩ := h
  have hsame : (itemRecordAad header recordId revisionId recordKindItem).toList
      = (itemRecordAad v.header recordId revisionId recordKindItem).toList := hown _ _ _ rfl
  rw [hsame] at hlog ⊢
  generalize hsealing : (⟨v.keys.itemWrapKey, nonce,
    (itemRecordAad v.header recordId revisionId recordKindItem).toList, ciphertext⟩ : Sealing) = x
    at hlog
  cases hlog with
  | @wrap s _ rek _ _ hs _ hrek _ hencrypt =>
      obtain ⟨-, rfl, haad, rfl⟩ := Sealing.mk.inj hsealing
      rw [← haad] at hencrypt
      refine ⟨rek, fun hwrapping => hfresh s hs ?_, hencrypt⟩
      rw [hrek, hwrapping]
  | payload hs _ hrek _ _ _ =>
      obtain ⟨rfl, -⟩ := Sealing.mk.inj hsealing
      exact absurd hrek (hfresh _ hs)
  | other haad => exact absurd (congrArg Sealing.aad hsealing).symm (haad recordId revisionId)

/-- What opens under another key with the data of a record is the payload
some call sealed for that record. -/
theorem VaultIdentity.OwnLog.exists_payload {rek : Key} (h : v.OwnLog calls ⟨rek, nonce,
      (itemRecordAad header recordId revisionId recordKindItem).toList, ciphertext⟩)
    (hne : rek ≠ v.keys.itemWrapKey) :
    ∃ s ∈ sealings platform calls, s.recordId = recordId ∧ ∃ payload,
      serializeItemPayload s.item = .ok payload
      ∧ platform.cipher.encrypt rek nonce payload
        (itemRecordAad header recordId revisionId recordKindItem).toList = some ciphertext := by
  obtain ⟨hlog, hown⟩ := h
  have hsame : (itemRecordAad header recordId revisionId recordKindItem).toList
      = (itemRecordAad v.header recordId revisionId recordKindItem).toList := hown _ _ _ rfl
  rw [hsame] at hlog ⊢
  generalize hsealing : (⟨rek, nonce,
    (itemRecordAad v.header recordId revisionId recordKindItem).toList, ciphertext⟩ : Sealing) = x
    at hlog
  cases hlog with
  | wrap _ _ _ _ _ =>
      obtain ⟨rfl, -⟩ := Sealing.mk.inj hsealing
      exact absurd rfl hne
  | @payload s _ _ _ payload _ hs _ _ _ hpayload hencrypt =>
      obtain ⟨rfl, rfl, haad, rfl⟩ := Sealing.mk.inj hsealing
      obtain ⟨-, hid, -, -⟩ := aadBytes_inj haad
      rw [← haad] at hencrypt
      exact ⟨s, hs, hid.symm, payload, hpayload, hencrypt⟩
  | other haad => exact absurd (congrArg Sealing.aad hsealing).symm (haad recordId revisionId)

-- =================================================================== a read

/-- What a read of any file returns was sealed for the entry's record. -/
theorem exists_sealing_of_readItem (hfresh : v.RekFresh calls)
    (hauth : Authentic platform.cipher (loaded.Asks platform v.keys) (v.OwnLog calls))
    (hmem : entry ∈ loaded.entries) (hkind : entry.recordKind = recordKindItem)
    (hread : readItem platform (v.session path) loaded entry = .ok decoded) :
    ∃ s ∈ sealings platform calls, s.recordId = entry.recordId ∧ decoded = s.item.view := by
  obtain ⟨envelope, rek, payload, henvelope, hrek, hpayload, hdecoded⟩ := readItem_eq_ok.mp hread
  -- the key that opens the payload is one that was wrapped, ...
  have hwrap := hauth _ ⟨entry, hmem, hkind, .wrap henvelope⟩ ⟨_, hrek⟩
  obtain ⟨rek', hne, hencrypt⟩ := hwrap.exists_wrap hfresh
  have hopened := decrypt_of_encrypt hencrypt
  rw [show decrypt platform.cipher v.keys.itemWrapKey envelope.rekWrapNonce envelope.wrappedRek
    (entry.itemAad loaded.header) = .ok rek.toList from hrek, Except.ok.injEq] at hopened
  obtain rfl : rek = rek' := List.Vector.toList_injective hopened
  -- ... so the payload was sealed for the record, whose id is in the data.
  have hinner := hauth _ ⟨entry, hmem, hkind, .payload henvelope hrek⟩ ⟨_, hpayload⟩
  obtain ⟨s, hs, hid, payload', hser, hencrypt'⟩ := hinner.exists_payload hne
  rw [show decrypt platform.cipher rek envelope.payloadNonce envelope.encryptedPayload
    (entry.itemAad loaded.header) = .ok payload' from decrypt_of_encrypt hencrypt',
    Except.ok.injEq] at hpayload
  subst hpayload
  exact ⟨s, hs, hid,
    ((deserializeItemPayload_of_serialize hser (length_of_deserializeItemPayload hdecoded)).mp
      hdecoded).2⟩

/-- Every line of a listing is an entry that read. -/
theorem exists_entry_of_summarizeEntries {session : UnlockedVault} {summaries : List ItemSummary}
    (entries : List RecordTableEntry)
    (h : summarizeEntries platform session loaded entries = .ok summaries) :
    ∀ summary ∈ summaries, ∃ entry ∈ entries, entry.recordKind = recordKindItem
      ∧ ∃ decoded, readItem platform session loaded entry = .ok decoded
        ∧ summary = decoded.summary entry.recordId := by
  induction entries generalizing summaries with
  | nil =>
      obtain rfl := Except.ok.inj h
      intro summary hsummary
      cases hsummary
  | cons entry entries ih =>
      intro summary hsummary
      by_cases hkind : entry.recordKind = recordKindItem
      · rw [summarizeEntries, if_neg (not_not.mpr hkind)] at h
        simp only [bind_eq_ok, pure_eq_ok, Except.ok.injEq] at h
        obtain ⟨decoded, hread, rest, hrest, rfl⟩ := h
        rcases List.mem_cons.mp hsummary with rfl | hsummary
        · exact ⟨entry, List.mem_cons_self, hkind, decoded, hread, rfl⟩
        · obtain ⟨entry', hmem, hentry'⟩ := ih hrest summary hsummary
          exact ⟨entry', List.mem_cons_of_mem _ hmem, hentry'⟩
      · rw [summarizeEntries, if_pos hkind] at h
        obtain ⟨entry', hmem, hentry'⟩ := ih h summary hsummary
        exact ⟨entry', List.mem_cons_of_mem _ hmem, hentry'⟩

/-- A view of any file is refused, or is of an item sealed under its id. -/
theorem withItem_authentic {fs : Fs} (hfresh : v.RekFresh calls) (hfs : fs path = some bytes)
    (hauth : ∀ loaded, loadVaultBytes platform (v.session path) bytes = .ok loaded →
      Authentic platform.cipher (loaded.Asks platform v.keys) (v.OwnLog calls))
    (io : IoFaults) (id : ItemId) :
    Refused platform io (v.session path) id fs ∨ ∃ s ∈ sealings platform calls, s.recordId = id
      ∧ ∀ (α : Type) (f : DecodedItem → Res α),
        withItem platform io (v.session path) id f fs = (f s.item.view, fs) := by
  have hfile : fs (v.session path).path = some bytes := hfs
  by_cases hio : io.read = true
  · refine .inl ⟨.io, fun α f => ?_⟩
    simp only [withItem, loadVault, FsM.bind_apply, readFile_of_some hfile, hio, if_true]
  · cases hload : loadVaultBytes platform (v.session path) bytes with
    | error e =>
        refine .inl ⟨e, fun α f => ?_⟩
        simp only [withItem, loadVault, FsM.bind_apply, readFile_of_some hfile,
          if_neg hio, FsM.lift, hload]
    | ok loaded =>
        cases hview : viewItem platform (v.session path) loaded id with
        | error e =>
            refine .inl ((refused_iff hfile hload).mpr (.inr fun decoded hok => ?_))
            rw [hview] at hok
            cases hok
        | ok decoded =>
            have hfound := hview
            simp only [viewItem, bind_eq_ok, okOr_eq_ok] at hfound
            obtain ⟨entry, hfind, hread⟩ := hfound
            have hmatch := List.find?_some hfind
            rw [decide_eq_true_eq] at hmatch
            obtain ⟨s, hs, hid, rfl⟩ := exists_sealing_of_readItem hfresh (hauth loaded hload)
              (List.mem_of_find?_eq_some hfind) hmatch.2 hread
            refine .inr ⟨s, hs, hid.trans hmatch.1, fun α f => ?_⟩
            simp only [withItem, loadVault, FsM.bind_apply, readFile_of_some hfile,
              if_neg hio, FsM.lift, hload, hview]

/-- A listing of any file tells of items sealed under their ids. -/
theorem list_authentic {fs fs' : Fs} {io : IoFaults} {summaries : List ItemSummary}
    (hfresh : v.RekFresh calls) (hfs : fs path = some bytes)
    (hauth : ∀ loaded, loadVaultBytes platform (v.session path) bytes = .ok loaded →
      Authentic platform.cipher (loaded.Asks platform v.keys) (v.OwnLog calls))
    (hlist : list platform io (v.session path) fs = (.ok summaries, fs')) :
    ∀ summary ∈ summaries, ∃ s ∈ sealings platform calls,
      summary = s.item.view.summary s.recordId := by
  have hfile : fs (v.session path).path = some bytes := hfs
  simp only [list, loadVault, FsM.bind_apply, readFile_of_some hfile, FsM.lift] at hlist
  cases hread : io.read with
  | true =>
      rw [hread] at hlist
      cases hlist
  | false =>
      rw [hread] at hlist
      simp only [Bool.false_eq_true, if_false] at hlist
      cases hload : loadVaultBytes platform (v.session path) bytes with
      | error e =>
          rw [hload] at hlist
          cases hlist
      | ok loaded =>
          rw [hload] at hlist
          intro summary hsummary
          obtain ⟨entry, hmem, hkind, decoded, hok, rfl⟩ :=
            exists_entry_of_summarizeEntries loaded.entries (congrArg Prod.fst hlist)
              summary hsummary
          obtain ⟨s, hs, hid, rfl⟩ :=
            exists_sealing_of_readItem hfresh (hauth loaded hload) hmem hkind hok
          exact ⟨s, hs, by rw [hid]⟩

-- ============================================================ the own file

/-- Of a file the calls have left, only the log opens. -/
theorem ListsOnly.authentic {m : ItemMap}
    (hlists : ListsOnly platform (v.session path) v.header (v.Built calls) bytes)
    (hstored : Stored v m bytes)
    (hload : loadVaultBytes platform (v.session path) bytes = .ok loaded) :
    Authentic platform.cipher (loaded.Asks platform v.keys) (v.OwnLog calls) := by
  obtain ⟨records, loaded', hload', hloaded, -⟩ := hstored.load (v.session_keys path)
  obtain rfl : loaded = loaded' := Except.ok.inj (hload.symm.trans hload')
  intro s hasked hopens
  obtain ⟨entry, hmem, hkind, hasks⟩ := hasked
  obtain ⟨record, hrecord, hentry⟩ := hloaded.entries_for.exists_of_mem hmem
  obtain ⟨draws, item, record', hseals, hitem, hentry', hframe⟩ :=
    hlists.exists_sealed hload hloaded hmem hentry (hentry.recordKind.symm.trans hkind)
  rw [hloaded.header_eq, hloaded.bytes_eq] at hasks
  have hlog := authentic_of_boundBytes hseals hitem hentry'.recordId
    hentry'.revisionId hentry'.frame
    hentry'.frameLen rfl s hasks hopens
  cases hasks with
  | wrap henvelope => exact hlog.own rfl
  | payload henvelope hrek => exact hlog.own rfl

/-- In every history: whatever bytes somebody puts at the path, as long as
only the log opens of them, as of the file the calls have left, a session
views and lists only items that calls of the history have written, each
under its own id. -/
theorem items_authentic {password : Bytes} {fs₀ : Fs} {st : VaultState}
    (h : History platform path password fs₀ st calls) (hnodup : (drawnIds calls).Nodup) :
    ∃ (v : VaultIdentity platform) (m : ItemMap) (bytes : Bytes),
      v.password = password ∧ Reached v path st (drawnIds calls) m bytes
      ∧ (∀ loaded, loadVaultBytes platform (v.session path) bytes = .ok loaded →
        Authentic platform.cipher (loaded.Asks platform v.keys) (v.OwnLog calls))
      ∧ (v.RekFresh calls → ∀ (foreign : Bytes) (fs : Fs), fs path = some foreign →
        (∀ loaded, loadVaultBytes platform (v.session path) foreign = .ok loaded →
          Authentic platform.cipher (loaded.Asks platform v.keys) (v.OwnLog calls)) →
        (∀ io id, Refused platform io (v.session path) id fs
          ∨ ∃ s ∈ sealings platform calls, s.recordId = id ∧ ∀ (α : Type) (f : DecodedItem → Res α),
            withItem platform io (v.session path) id f fs = (f s.item.view, fs))
        ∧ ∀ io summaries fs', list platform io (v.session path) fs = (.ok summaries, fs') →
          ∀ summary ∈ summaries, ∃ s ∈ sealings platform calls,
            summary = s.item.view.summary s.recordId) := by
  obtain ⟨v, m, bytes, hv, hreached, bytes', hfile, hlists⟩ := h.lists_built hnodup
  obtain rfl : bytes = bytes' := Option.some.inj (hreached.file.symm.trans hfile)
  refine ⟨v, m, bytes, hv, hreached, fun loaded hload => hlists.authentic hreached.stored hload, ?_⟩
  intro hfresh foreign fs hfs hauth
  exact ⟨withItem_authentic hfresh hfs hauth,
    fun io summaries fs' => list_authentic hfresh hfs hauth⟩

-- ================================================================== a sample

/-- What a history seals it seals when it goes on. -/
theorem VaultIdentity.OwnLog.mono {calls' : Calls β} {s : Sealing} (h : v.OwnLog calls s)
    (hsub : ∀ entry ∈ calls, entry ∈ calls') : v.OwnLog calls' s := by
  have hmem : ∀ x ∈ sealings platform calls, x ∈ sealings platform calls' := by
    intro x hx
    obtain ⟨entry, hentry, hsealed⟩ := List.mem_flatMap.mp hx
    exact List.mem_flatMap.mpr ⟨entry, hsub entry hentry, hsealed⟩
  obtain ⟨hlog, hown⟩ := h
  refine ⟨?_, hown⟩
  cases hlog with
  | wrap hs hrevision hrek hnonce hencrypt =>
      exact .wrap (hmem _ hs) hrevision hrek hnonce hencrypt
  | payload hs hrevision hrek hnonce hpayload hencrypt =>
      exact .payload (hmem _ hs) hrevision hrek hnonce hpayload hencrypt
  | other haad => exact .other haad

def secondId : ItemId := List.Vector.replicate 16 1

def secondItem : PlainItem := noteOf [7]

/-- Another item, under another id. -/
def addSecond (rek : Key) : StoreCall Unit × Reply Unit :=
  (.mutate { draws := { drawsWith secondId zeroId with rek := some rek } } (.add secondItem),
    .mutated (.ok (some secondId)))

/-- The items of the two calls. -/
theorem of_mem_sealings_addSecond {rek : Key} {s : ItemSealing}
    (h : s ∈ sealings Platform.transparent (addWithRek rek ++ [addSecond rek])) :
    s.draws.rek = some rek
      ∧ (s.recordId = zeroId ∧ s.item = sampleItem ∨ s.recordId = secondId
        ∧ s.item = secondItem) := by
  have hsealings : sealings Platform.transparent (addWithRek rek ++ [addSecond rek])
      = [⟨(envWithRek rek).draws, zeroId, sampleItem⟩,
        ⟨{ drawsWith secondId zeroId with rek := some rek }, secondId, secondItem⟩] := rfl
  rw [hsealings] at h
  simp only [List.mem_cons, List.not_mem_nil, or_false] at h
  obtain rfl | rfl := h
  · exact ⟨rfl, .inl ⟨rfl, rfl⟩⟩
  · exact ⟨rfl, .inr ⟨rfl, rfl⟩⟩

/-- A vault of two items whose file is put back to when there was one: the
first still reads, and nothing reads under another id than its own. -/
theorem items_authentic_of_older :
    ∃ (st : VaultState) (rek : Key) (v : VaultIdentity Platform.transparent)
      (older : Bytes) (fs : Fs), History Platform.transparent samplePath samplePassword noFiles st
        (addWithRek rek ++ [addSecond rek])
      ∧ v.password = samplePassword ∧ st.fs samplePath ≠ some older
      ∧ fs = st.fs.set samplePath (some older)
      ∧ (∀ f : DecodedItem → Res Unit,
        withItem Platform.transparent IoFaults.none (v.session samplePath) zeroId f fs
          = (f sampleItem.view, fs))
      ∧ ∀ io id, Refused Platform.transparent io (v.session samplePath) id fs
        ∨ ∃ item, (id = zeroId ∧ item = sampleItem ∨ id = secondId ∧ item = secondItem)
          ∧ ∀ f : DecodedItem → Res Unit,
            withItem Platform.transparent io (v.session samplePath) id f fs
              = (f item.view, fs) := by
  obtain ⟨st, w, bytes, hhistory, hsession, hoff, hw, hfs, hempty⟩ := @sample_reached Unit
  obtain ⟨rek, hrek⟩ := exists_rek_ne w.keys.itemWrapKey
  have hnew : zeroId ∉ (TombstoneMap.empty : ItemMap).keys := List.not_mem_nil
  have hfirst : (Mutation.add sampleItem).Commits (envWithRek rek) samplePath st.fs
      TombstoneMap.empty :=
    add_commits_of_rek rek zeroId (storedFrameLen_lt sampleItem_withinLimits) (by decide) hoff
  obtain ⟨older, hone, holder⟩ := hhistory.added hsession hfs hempty rfl hnew hfirst rfl
  have hfs' : st.fs.set samplePath (some older) samplePath = some older := Fs.set_self ..
  have hoff' : AgreesOff samplePath noFiles (st.fs.set samplePath (some older)) := by
    intro p hp
    rw [Fs.set_of_ne _ _ hp, hoff p hp]
  have hnew' : secondId ∉ (TombstoneMap.empty.push zeroId sampleItem hnew).keys := by
    rw [TombstoneMap.keys_push]
    decide
  have hsize : (TombstoneMap.empty.push zeroId sampleItem hnew).size < maxRecords := by
    rw [TombstoneMap.size_push]
    decide
  have hsecond := @add_commits_of_rek (TombstoneMap.empty.push zeroId sampleItem hnew) secondItem _
    rek secondId (by decide) hsize hoff'
  obtain ⟨bytes₂, htwo, hstored⟩ := hone.added hsession hfs' holder rfl hnew' hsecond rfl
  have hnodup : (drawnIds (addWithRek rek ++ [addSecond rek])).Nodup := by
    show [zeroId, secondId].Nodup
    decide
  obtain ⟨v, m, bytes', hv, hreached, -, hall⟩ := items_authentic htwo hnodup
  have hcurrent : Fs.set (st.fs.set samplePath (some older)) samplePath (some bytes₂) samplePath
      = some bytes₂ := Fs.set_self ..
  obtain rfl : bytes₂ = bytes' := Option.some.inj (hcurrent.symm.trans hreached.file)
  obtain rfl := hstored.identity_eq hreached.stored (hw.trans hv.symm)
  have hfresh : w.RekFresh (addWithRek rek ++ [addSecond rek]) := by
    intro s hs hsame
    rw [(of_mem_sealings_addSecond hs).1] at hsame
    exact hrek (Option.some.inj hsame)
  -- of the older file, too, only the log opens
  have hauth : ∀ loaded, loadVaultBytes Platform.transparent (w.session samplePath) older
    = .ok loaded →
      Authentic Platform.transparent.cipher (loaded.Asks Platform.transparent w.keys)
        (w.OwnLog (addWithRek rek ++ [addSecond rek])) := by
    intro loaded hload
    obtain ⟨v, m', bytes', hv', hreached', bytes'', hfile, hlists⟩ :=
      hone.lists_built (List.nodup_singleton zeroId)
    obtain rfl : older = bytes' := Option.some.inj (hfs'.symm.trans hreached'.file)
    obtain rfl : older = bytes'' := Option.some.inj (hfs'.symm.trans hfile)
    obtain rfl := holder.identity_eq hreached'.stored (hw.trans hv'.symm)
    intro s hasked hopens
    exact (hlists.authentic holder hload s hasked hopens).mono fun entry hentry =>
      List.mem_append_left _ hentry
  have hold : Fs.set (Fs.set (st.fs.set samplePath (some older)) samplePath
    (some bytes₂)) samplePath
      (some older) samplePath = some older := Fs.set_self ..
  refine ⟨_, rek, w, older, _, htwo, hw, ?_, rfl, fun f => ?_, fun io id => ?_⟩
  · intro hsame
    obtain rfl : bytes₂ = older := Option.some.inj (hcurrent.symm.trans hsame)
    have hkeys := congrArg TombstoneMap.size (hstored.unique holder rfl)
    rw [TombstoneMap.size_push] at hkeys
    omega
  · exact holder.withItem_of_live f hold rfl rfl (by rw [TombstoneMap.status_push, if_pos rfl])
      sampleItem_withinLimits
  · rcases (hall hfresh older _ hold hauth).1 io id with hrefused | ⟨s, hs, rfl, hview⟩
    · exact .inl hrefused
    · exact .inr ⟨s.item, (of_mem_sealings_addSecond hs).2, hview Unit⟩

end MeissnerSeal
