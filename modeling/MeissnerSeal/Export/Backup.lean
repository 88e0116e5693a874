/-
What `export` writes of a stored map, and what `authenticate` reads from
it: the live items, in order.

# Success

Absent failing reads, an `export` fails for two reasons only: a live
item the decoder rejects, or an item set whose ciphertext does not fit
the `u32` length of the container.
-/
import MeissnerSeal.Export.RoundTrip
import MeissnerSeal.Vault.Created

namespace MeissnerSeal

open ByteCodec ExceptRules TlvList

variable {platform : Platform} {v : VaultIdentity platform} {m : ItemMap} {bytes : Bytes}
  {session : UnlockedVault} {fs : Fs} {io : Nat → IoFaults}

/-- The items `list` and `export` see, in order. -/
def liveItems (m : ItemMap) : List PlainItem := m.live.map Prod.snd

/-- The length of the item set `export` seals. -/
def itemSetLen (m : ItemMap) : Nat := 4 + ((liveItems m).map PlainItem.payloadLen).sum

/-- What the decoder accepts of the map it accepts of its live items. -/
theorem AllWithinLimits.liveItems (h : AllWithinLimits m) :
    ∀ item ∈ liveItems m, item.WithinLimits := by
  intro item hmem
  obtain ⟨⟨id, _⟩, hpair, rfl⟩ := List.mem_map.mp hmem
  exact h id _ hpair

/-- There are no more live items than entries. -/
theorem length_live_le (m : ItemMap) : m.live.length ≤ m.size := List.length_filterMap_le ..

-- =============================================================== reading

/-- A read that fails is all there is to see of the item. -/
theorem withItem_of_read_fault {α : Type} {io : IoFaults} (id : ItemId)
    (f : DecodedItem → Res α) (hread : io.read = true) (fs : Fs) :
    withItem platform io session id f fs = (.error .io, fs) := by
  simp only [withItem, loadVault, FsM.bind_apply, readFile, hread, if_true]

/-- The loop of `export` over live items writes them, unless a read fails. -/
theorem Stored.exportLoop_cases (io : Nat → IoFaults) (h : Stored v m bytes)
    (hfs : fs session.path = some bytes)
    (hkeys : session.keys = v.keys) (pairs : List (ItemId × PlainItem))
    (hlive : ∀ pair ∈ pairs, m.status pair.1 = some (some pair.2))
    (hlimits : ∀ pair ∈ pairs, pair.2.WithinLimits) (i : Nat) :
    ∃ written, writeList (fun item => exportItem item.view) (pairs.map Prod.snd) = .ok written
      ∧ (exportLoop platform io session i (pairs.map fun pair => pair.2.view.summary pair.1) fs
          = (.ok written, fs)
        ∨ ((∃ j, (io j).read = true) ∧ ∃ e, exportLoop platform io session i
            (pairs.map fun pair => pair.2.view.summary pair.1) fs = (.error e, fs))) := by
  induction pairs generalizing i with
  | nil => exact ⟨[], rfl, .inl rfl⟩
  | cons pair pairs ih =>
      obtain ⟨hhead, htail⟩ := List.forall_mem_cons.mp hlive
      obtain ⟨hlimit, hlimits'⟩ := List.forall_mem_cons.mp hlimits
      obtain ⟨written, hwritten, hrun⟩ := ih htail hlimits' (i + 1)
      have hle := hlimit.payloadLen_le
      obtain ⟨x, hser⟩ := exists_serializeItemPayload (by omega : pair.2.payloadLen < 2 ^ 32)
      have hx := exportItem_eq_ok.mpr hser
      refine ⟨x ++ written, writeList_cons_eq_ok.mpr ⟨x, written, hx, hwritten, rfl⟩, ?_⟩
      rw [List.map_cons, exportLoop]
      simp only [FsM.bind_apply, DecodedItem.summary]
      -- the item is read from the file anew, and that read may fail
      cases hread : (io i).read with
      | true =>
          right
          exact ⟨⟨i, hread⟩, .io, by simp only [withItem_of_read_fault pair.1 exportItem hread fs]⟩
      | false =>
          have hitem := h.withItem_of_live exportItem hfs hkeys hread hhead hlimit
          rw [hx] at hitem
          simp only [DecodedItem.summary] at hrun
          rcases hrun with hrun | ⟨hfault, e, hrun⟩
          · left
            simp only [hitem, hrun, FsM.pure_apply]
          · right
            exact ⟨hfault, e, by simp only [hitem, hrun]⟩

/-- What `export` seals, when it gets that far. -/
theorem Stored.serializeLiveItemSet_cases (io : Nat → IoFaults) (h : Stored v m bytes)
    (hfs : fs session.path = some bytes) (hkeys : session.keys = v.keys) :
    (AllWithinLimits m ∧ ∃ x, serializeItemSet (liveItems m) = .ok x
        ∧ serializeLiveItemSet platform io session fs = (.ok x, fs))
      ∨ (((∃ j, (io j).read = true) ∨ ¬ AllWithinLimits m)
        ∧ ∃ e, serializeLiveItemSet platform io session fs = (.error e, fs)) := by
  have hfsList : (list platform (io 0) session fs).2 = fs := list_fs (io 0)
  rcases hlist : list platform (io 0) session fs with ⟨r, fs₁⟩
  rw [hlist] at hfsList
  simp only at hfsList
  subst hfsList
  simp only [serializeLiveItemSet, FsM.bind_apply, hlist]
  cases r with
  | error e =>
      right
      refine ⟨?_, e, rfl⟩
      by_contra hnone
      obtain ⟨hread, hlimits⟩ := not_or.mp hnone
      have hread' : (io 0).read = false := by
        by_contra hfault
        exact hread ⟨0, by simpa using hfault⟩
      have hok := (h.list_eq_ok hfs hkeys hread').mpr ⟨not_not.mp hlimits, rfl⟩
      rw [hlist] at hok
      cases hok
  | ok summaries =>
      have hread : (io 0).read = false := by
        cases hread : (io 0).read with
        | false => rfl
        | true =>
            simp only [list, loadVault, FsM.bind_apply, readFile, hread, if_true, Prod.mk.injEq,
              reduceCtorEq, false_and] at hlist
      -- the listing succeeded, so it is that of the map
      have hok := (h.list_eq_ok hfs hkeys hread).mp (by rw [hlist])
      obtain ⟨hlimits, rfl⟩ := hok
      have hlive : ∀ pair ∈ m.live, m.status pair.1 = some (some pair.2) :=
        fun pair hmem => TombstoneMap.mem_live.mp hmem
      obtain ⟨written, hwritten, hrun⟩ := h.exportLoop_cases io hfs hkeys m.live hlive
        (fun pair hmem => hlimits pair.1 pair.2 hmem) 1
      have hcap := h.size_le
      have hlen := length_live_le m
      have hmax : maxRecords = 2 ^ 26 := rfl
      have hsummaries : (liveSummaries m).length = m.live.length := List.length_map ..
      have hitems : (liveItems m).length = m.live.length := List.length_map ..
      have hlt : m.live.length < 2 ^ 32 := by omega
      simp only [hsummaries, FsM.lift, u32TryFrom_of_lt hlt, okOr_some]
      rcases hrun with hrun | ⟨hfault, e, hrun⟩
      · left
        refine ⟨hlimits, leU32 (UInt32.ofNat m.live.length) ++ written, ?_, ?_⟩
        · exact serializeItemSet_eq_ok.mpr ⟨UInt32.ofNat m.live.length,
            by rw [toNat_u32_ofNat hlt, hitems], written, hwritten, rfl⟩
        · simp only [liveSummaries, hrun, FsM.pure_apply]
      · right
        exact ⟨.inl hfault, e, by simp only [liveSummaries, hrun]⟩

-- ================================================================ export

/-- A total KDF derives a key for every passphrase. -/
theorem exists_deriveExportKey (htotal : platform.kdf.Total) (passphrase : Bytes)
    (sourceVaultId : U8Array 16) :
    ∃ key, deriveExportKey platform passphrase sourceVaultId canonicalArgon2idV1 = .ok key := by
  obtain ⟨muk, hmuk⟩ := Option.isSome_iff_exists.mp (htotal.argon2id passphrase
    (constructArgon2idSalt sourceVaultId) canonicalArgon2idV1.argon2.mCostKib
    canonicalArgon2idV1.argon2.tCost canonicalArgon2idV1.argon2.pLanes)
  obtain ⟨key, hkey⟩ := Option.isSome_iff_exists.mp (htotal.expand muk exportBundleInfo)
  have hvalid : ¬ (canonicalArgon2idV1.argon2.invalidInput = true) := by decide
  refine ⟨key, ?_⟩
  simp only [deriveExportKey, deriveExportBundleKey, derive, rejectIf_neg _ hvalid, ok_bind, hmuk,
    okOr_some, expand, hkey, orErr_ok]

/-- What an exported bundle authenticates to, under its passphrase: the
live items, unless they are over the import-side count. -/
theorem Stored.of_exportBundle {nonceDraw : Option Nonce} {passphrase bundle : Bytes} {fs' : Fs}
    (h : Stored v m bytes) (hfs : fs session.path = some bytes) (hkeys : session.keys = v.keys)
    (hexport : exportBundle platform io nonceDraw session passphrase fs = (.ok bundle, fs')) :
    AllWithinLimits m ∧ fs' = fs
      ∧ authenticate platform bundle passphrase
        = if (liveItems m).length ≤ maxExportItemCount then .ok (liveItems m)
          else .error (formatError "export item count exceeds maximum") := by
  obtain ⟨kdf, hkdf⟩ : ∃ x, serializeKdfProfileParams canonicalArgon2idV1 = .ok x := ⟨_, rfl⟩
  have hkdfLen := length_of_serializeKdfProfileParams hkdf
  by_cases hpass : passphrase = []
  · simp only [exportBundle, FsM.bind_apply, FsM.lift, rejectIf_pos _ hpass, Prod.mk.injEq,
      reduceCtorEq, false_and] at hexport
  simp only [exportBundle, FsM.bind_apply, FsM.lift, rejectIf_neg _ hpass, hkdf] at hexport
  rcases h.serializeLiveItemSet_cases io hfs hkeys with
    ⟨hlimits, plaintext, hplain, hset⟩ | ⟨-, e, hset⟩
  case inr => simp only [hset, Prod.mk.injEq, reduceCtorEq, false_and] at hexport
  simp only [hset] at hexport
  cases hkey : deriveExportKey platform passphrase session.context.vaultId canonicalArgon2idV1 with
  | error e => simp only [hkey, Prod.mk.injEq, reduceCtorEq, false_and] at hexport
  | ok key =>
      simp only [hkey] at hexport
      cases henc : orErrUnwind (encrypt platform.cipher nonceDraw key plaintext
          (exportAad session.context.vaultId msexpVersionV1)) CoreError.crypto with
      | error e => simp only [henc, Prod.mk.injEq, reduceCtorEq, false_and] at hexport
      | ok sealed =>
          obtain ⟨ciphertext, nonce⟩ := sealed
          simp only [henc, Prod.mk.injEq] at hexport
          obtain ⟨hbundle, rfl⟩ := hexport
          refine ⟨hlimits, rfl, ?_⟩
          -- the bundle opens to what was sealed
          have hdecrypt := decrypt_of_encrypt (encrypt_eq_ok.mp (orErrUnwind_eq_ok.mp henc)).2
          have hkdfParse := parseKdfProfileParams_of_serialize hkdf (by rw [hkdfLen]; decide)
          have hlen := length_of_serializeItemSet hplain
          have hcap := h.size_le
          have hlive := length_live_le m
          have hsum : ((liveItems m).map PlainItem.payloadLen).sum ≤ m.live.length * 2 ^ 17 := by
            have hall : ∀ n ∈ (liveItems m).map PlainItem.payloadLen, n ≤ 2 ^ 17 := by
              intro n hn
              obtain ⟨item, hitem, rfl⟩ := List.mem_map.mp hn
              exact (hlimits.liveItems item hitem).payloadLen_le
            have hle := List.sum_le_card_nsmul _ _ hall
            rw [List.length_map, nsmul_eq_mul, Nat.cast_id, liveItems, List.length_map] at hle
            exact hle
          have hmaxRecords : maxRecords = 2 ^ 26 := rfl
          have hsmall : 2 ^ 60 ≤ usizeMax := by decide
          have hmax : plaintext.length ≤ usizeMax := by omega
          have htags : ∀ item ∈ liveItems m, item.tags.length ≤ maxTagCount :=
            fun item hitem => (hlimits.liveItems item hitem).2.1
          simp only [authenticate, rejectIf_neg _ hpass, ok_bind, parseBundle_of_serialize hbundle,
            hkdfParse, hkey, hdecrypt, orErr_ok]
          -- the count is the one limit of the reader that the writer
          -- does not check
          by_cases hcount : (liveItems m).length ≤ maxExportItemCount
          · rw [if_pos hcount]
            exact (deserializeItemSet_eq_ok hmax).mpr ⟨hcount, htags, hplain⟩
          · rw [if_neg hcount]
            exact deserializeItemSet_of_over hplain hmax (not_le.mp hcount)

/-- With nothing failing around it, `export` succeeds exactly when every
live item is within the limits and the item set fits the container. -/
theorem Stored.exists_exportBundle {nonce : Nonce} {passphrase : Bytes} (h : Stored v m bytes)
    (hfs : fs session.path = some bytes) (hkeys : session.keys = v.keys)
    (htotal : platform.kdf.Total) (hpass : passphrase ≠ []) (hreads : ∀ i, (io i).read = false) :
    (∃ bundle, (exportBundle platform io (some nonce) session passphrase fs).1 = .ok bundle)
      ↔ AllWithinLimits m ∧ itemSetLen m + tagLen < 2 ^ 32 := by
  obtain ⟨kdf, hkdf⟩ : ∃ x, serializeKdfProfileParams canonicalArgon2idV1 = .ok x := ⟨_, rfl⟩
  have hkdfLen := length_of_serializeKdfProfileParams hkdf
  have hkdfLt : kdf.length < 2 ^ 32 := by omega
  obtain ⟨key, hkey⟩ := exists_deriveExportKey htotal passphrase session.context.vaultId
  simp only [exportBundle, FsM.bind_apply, FsM.lift, rejectIf_neg _ hpass, hkdf]
  rcases h.serializeLiveItemSet_cases io hfs hkeys with
    ⟨hlimits, plaintext, hplain, hset⟩ | ⟨hfault, e, hset⟩
  · have hlen : plaintext.length = itemSetLen m := length_of_serializeItemSet hplain
    have htag : tagLen = 16 := rfl
    have hnonce : nonce.toList.length = nonceLen := List.Vector.toList_length _
    simp only [hset, hkey]
    constructor
    · rintro ⟨bundle, hbundle⟩
      refine ⟨hlimits, ?_⟩
      cases henc : platform.cipher.encrypt key nonce plaintext
          (exportAad session.context.vaultId msexpVersionV1) with
      | none =>
          have hrun : encrypt platform.cipher (some nonce) key plaintext
              (exportAad session.context.vaultId msexpVersionV1) = .error .encrypt := by
            rw [encrypt, okOr_some, ok_bind, henc]
            rfl
          simp only [hrun, orErrUnwind, reduceCtorEq] at hbundle
      | some ciphertext =>
          have hrun := encrypt_eq_ok.mpr ⟨(rfl : some nonce = some nonce), henc⟩
          simp only [hrun, orErrUnwind_ok] at hbundle
          have hlt := (exists_serializeBundle hnonce hkdfLt).mp ⟨bundle, hbundle⟩
          rw [platform.cipher.length_encrypt henc, hlen] at hlt
          exact hlt
    · rintro ⟨-, hlt⟩
      obtain ⟨ciphertext, henc⟩ : ∃ ciphertext, platform.cipher.encrypt key nonce plaintext
          (exportAad session.context.vaultId msexpVersionV1) = some ciphertext :=
        exists_encrypt key nonce _ (by omega)
      have hrun := encrypt_eq_ok.mpr ⟨(rfl : some nonce = some nonce), henc⟩
      have hctLen := platform.cipher.length_encrypt henc
      simp only [hrun, orErrUnwind_ok]
      exact (exists_serializeBundle hnonce hkdfLt).mpr (by omega)
  · constructor
    · rintro ⟨bundle, hbundle⟩
      simp only [hset, reduceCtorEq] at hbundle
    · rintro ⟨hlimits, -⟩
      rcases hfault with ⟨j, hj⟩ | hnot
      · rw [hreads j] at hj
        cases hj
      · exact absurd hlimits hnot

end MeissnerSeal
