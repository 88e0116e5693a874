/-
What an import or an export leaves on disk when it stops under way.

# Imports

The adds of an import go behind the old records one by one, and its rollback
takes them back one by one, from the first. Wherever either stops, the vault
holds the old map with a part of the new items behind it, the first of them
dead again (`Stored.importLoop_retracts`).

# Exports

A bundle says how long it is, so what an export leaves of a bundle it could
not write to its end is no bundle (`parseBundle_take`).
-/
import MeissnerSeal.Export.Import

namespace MeissnerSeal

open ByteCodec ExceptRules

variable {platform : Platform} {v : VaultIdentity platform} {m : ItemMap} {bytes : Bytes}
  {session : UnlockedVault} {fs : Fs} {env : ImportEnv}

-- ================================================================ rollback

/-- A rollback takes back the first of the pairs, wherever it stops, and
touches no other entry. -/
theorem Stored.rollback_retracts (env : ImportEnv) {before after : List (ItemId × Option PlainItem)}
    (pairs : List (ItemId × PlainItem)) (h : Stored v m bytes)
    (hfs : fs session.path = some bytes) (hkeys : session.keys = v.keys)
    (hentries : m.entries
      = before ++ (pairs.map fun pair => (pair.1, some pair.2)) ++ after) (i : Nat) :
    ∃ (r : Res Bool) (fs' : Fs) (bytes' : Bytes) (m' : ItemMap),
      rollback platform env session i (pairs.map Prod.fst) fs = (r, fs')
      ∧ fs' session.path = some bytes' ∧ Stored v m' bytes'
      ∧ ∃ j ≤ pairs.length, m'.entries
        = before ++ ((pairs.take j).map fun pair => (pair.1, none))
          ++ ((pairs.drop j).map fun pair => (pair.1, some pair.2)) ++ after := by
  induction pairs generalizing m bytes fs i before with
  | nil =>
      refine ⟨.ok true, fs, bytes, m, rfl, hfs, h, 0, le_rfl, ?_⟩
      rw [hentries]
      simp
  | cons pair pairs ih =>
      obtain ⟨id, item⟩ := pair
      have hsplit : m.entries = before ++ (id, some item)
          :: ((pairs.map fun pair => (pair.1, some pair.2)) ++ after) := by
        rw [hentries, List.append_assoc]
        rfl
      have hlive : m.status id = some (some item) := TombstoneMap.status_eq_some.mpr
        (hsplit ▸ List.mem_append_right _ List.mem_cons_self)
      by_cases hcommits : (Mutation.delete id).Commits (env.deletes i) session.path fs m
      case neg =>
        -- the file is as it was: the rollback stops here
        obtain ⟨e, fs', hrun, hkeep⟩ := h.delete_of_not_commits hfs hkeys hlive hcommits
        have hstays : ∃ j ≤ ((id, item) :: pairs).length, m.entries
            = before ++ ((((id, item) :: pairs).take j).map fun pair => (pair.1, none))
              ++ ((((id, item) :: pairs).drop j).map fun pair => (pair.1, some pair.2)) ++ after :=
          ⟨0, Nat.zero_le _, by rw [hentries]; simp⟩
        by_cases hpanic : e = .panic
        · subst hpanic
          exact ⟨.error .panic, fs', bytes, m,
            by simp only [rollback, List.map_cons, hrun], hkeep, h, hstays⟩
        · exact ⟨.ok false, fs', bytes, m, by simp only [rollback, List.map_cons, hrun], hkeep, h,
            hstays⟩
      case pos =>
        obtain ⟨out, hrun, hstored⟩ := h.delete_of_commits hfs hkeys hcommits
        have hdeleted : (m.assign id none).entries = (before ++ [(id, none)])
            ++ (pairs.map fun pair => (pair.1, some pair.2)) ++ after := by
          rw [TombstoneMap.entries_assign_none hsplit]
          simp
        cases hafter : (env.deletes i).io.afterRename with
        | true =>
            refine ⟨.ok false, fs.set session.path (some out), out, m.assign id none, ?_,
              Fs.set_self .., hstored, 1, Nat.succ_le_succ (Nat.zero_le _), ?_⟩
            · simp only [rollback, List.map_cons, hrun, hafter, if_true]
            · rw [hdeleted]
              simp
        | false =>
            have hset : (fs.set session.path (some out)) session.path = some out := Fs.set_self ..
            obtain ⟨r, fs', bytes', m', hrest, hfs', hstored', j, hj, hentries'⟩ :=
              ih hstored hset hdeleted (i + 1)
            refine ⟨r, fs', bytes', m', ?_, hfs', hstored', j + 1, Nat.succ_le_succ hj, ?_⟩
            · simp only [rollback, List.map_cons, hrun, hafter, Bool.false_eq_true, if_false, hrest]
            · rw [hentries']
              simp

-- ============================================================ the item loop

section Unclean

variable {items : List PlainItem} {k : Nat} {ids : List ItemId} {bytes₁ : Bytes} {m₁ : ItemMap}

/-- The loop around an `add` that fails is what the rollback makes of it. -/
theorem importLoop_of_add_error (items : List PlainItem) {item : PlainItem}
    {e : CoreError} {fs' : Fs}
    (hrun : add platform (env.adds ids.length) session item fs = (.error e, fs')) :
    ∃ e', importLoop platform env session ids (item :: items) fs
      = (.error e', if e = .panic then fs' else (rollback platform env session 0 ids fs').2) := by
  by_cases hpanic : e = .panic
  · subst hpanic
    exact ⟨.panic, by simp only [importLoop, hrun, if_true]⟩
  · rw [if_neg hpanic]
    simp only [importLoop, hrun]
    rcases rollback platform env session 0 ids fs' with ⟨e' | _ | _, fs₂⟩
    · exact ⟨e', rfl⟩
    · exact ⟨.partialImport, rfl⟩
    · exact ⟨_, rfl⟩

/-- An `add` that fails leaves the rollback to decide how much
is taken back. -/
theorem importLoop_retracts_of_add_error (items : List PlainItem)
    {pairs : List (ItemId × PlainItem)} {item : PlainItem}
    {e : CoreError} {after : List (ItemId × Option PlainItem)} {fs₁ : Fs}
    (hrun : add platform (env.adds (pairs.map Prod.fst).length) session item fs = (.error e, fs₁))
    (hstored : Stored v m₁ bytes₁) (hfs₁ : fs₁ session.path = some bytes₁)
    (hkeys : session.keys = v.keys)
    (hentries : m₁.entries
      = m.entries ++ (pairs.map fun pair => (pair.1, some pair.2)) ++ after) :
    ∃ (e' : CoreError) (fs' : Fs) (bytes' : Bytes) (m' : ItemMap),
      importLoop platform env session (pairs.map Prod.fst) (item :: items) fs = (.error e', fs')
      ∧ fs' session.path = some bytes' ∧ Stored v m' bytes'
      ∧ ∃ j ≤ pairs.length, m'.entries
        = m.entries ++ ((pairs.take j).map fun pair => (pair.1, none))
          ++ ((pairs.drop j).map fun pair => (pair.1, some pair.2)) ++ after := by
  obtain ⟨e', hloop⟩ := importLoop_of_add_error items hrun
  by_cases hpanic : e = .panic
  case pos =>
    rw [if_pos hpanic] at hloop
    exact ⟨e', fs₁, bytes₁, m₁, hloop, hfs₁, hstored, 0, Nat.zero_le _, by rw [hentries]; simp⟩
  case neg =>
    rw [if_neg hpanic] at hloop
    obtain ⟨r, fs', bytes', m', hrollback, hfs', hstored', hretracted⟩ :=
      hstored.rollback_retracts env pairs hfs₁ hkeys hentries 0
    rw [hrollback] at hloop
    exact ⟨e', fs', bytes', m', hloop, hfs', hstored', hretracted⟩

theorem zip_take_length {α β : Type} (xs : List α) (ys : List β) :
    xs.zip (ys.take xs.length) = xs.zip ys := by
  induction xs generalizing ys with
  | nil => rfl
  | cons x xs ih =>
      cases ys with
      | nil => rfl
      | cons y ys => exact congrArg ((x, y) :: ·) (ih ys)

/-- The ids added so far and the items they stand for. -/
theorem ImportReached.zip_eq (h : ImportReached v env session fs m items k ids bytes₁ m₁) :
    ids.zip (items.take k) = ids.zip items := by
  rw [← h.length_eq]
  exact zip_take_length ids items

/-- And one more. -/
theorem ImportReached.zip_append (h : ImportReached v env session fs m items k ids bytes₁ m₁)
    {item : PlainItem} (hitem : items[k]? = some item) (id : ItemId) :
    (ids ++ [id]).zip items = ids.zip (items.take k) ++ [(id, item)] := by
  have hk := (List.getElem?_eq_some_iff.mp hitem).1
  have hlen : ids.length = (items.take k).length := by
    rw [h.length_eq, List.length_take, Nat.min_eq_left hk.le]
  rw [← zip_take_length, List.length_append, h.length_eq, List.length_singleton, List.take_add_one,
    hitem, List.zip_append hlen]
  rfl

end Unclean

/-- Wherever an import stops, the vault holds the old map with some of the
new items behind, the first of them dead again. -/
theorem Stored.importLoop_retracts (h : Stored v m bytes) (hfs : fs session.path = some bytes)
    (hkeys : session.keys = v.keys) {items : List PlainItem} (hfresh : env.Fresh m items.length) :
    ∃ (ids : List ItemId) (fs' : Fs) (bytes' : Bytes) (m' : ItemMap),
      fs' session.path = some bytes' ∧ Stored v m' bytes' ∧ ids.length ≤ items.length
      ∧ (∀ i < ids.length, ids[i]? = env.idAt i)
      ∧ ((importLoop platform env session [] items fs = (.ok ids, fs')
          ∧ ids.length = items.length ∧ m.Extends (ids.zip items) m')
        ∨ ((∃ e, importLoop platform env session [] items fs = (.error e, fs'))
          ∧ m.Retracts (ids.zip items) m')) := by
  by_cases hall : ∀ i < items.length, env.AddClean session.path fs m items i
  case pos =>
    obtain ⟨ids, bytes', m', hrun, hstored, hlen, hids, hextends⟩ :=
      h.importLoop_of_clean hfs hkeys hfresh hall
    exact ⟨ids, _, bytes', m', Fs.set_self .., hstored, hlen.le, fun i hi => hids i (hlen ▸ hi),
      .inl ⟨hrun, hlen, hextends⟩⟩
  -- the first add that is not clean ends the loop
  obtain ⟨k, hk, hunclean, hclean⟩ := exists_first hall
  obtain ⟨ids, bytes₁, m₁, hreached⟩ := h.importReached hfs hkeys hfresh k hk.le hclean
  obtain ⟨item, hget⟩ : ∃ item, items[k] = item := ⟨_, rfl⟩
  have hitem : items[k]? = some item := by rw [List.getElem?_eq_getElem hk, hget]
  have hfst := hreached.map_fst_pairs hk.le
  have hextends := hreached.extends_eq
  have hloop := hreached.loop_cons hk
  rw [hget] at hloop
  by_cases hcommits : env.AddCommits session.path fs m items k
  case neg =>
    obtain ⟨e, fs₂, hrun, hkeep⟩ := hreached.stored.add_of_not_commits (Fs.set_self ..) hkeys
      (fun hc => hcommits ((hreached.commits_iff hitem).mp hc))
    rw [← hreached.length_eq, ← hfst] at hrun
    obtain ⟨e', fs', bytes', m', herror, hfs', hstored', j, hj, hentries'⟩ :=
      importLoop_retracts_of_add_error (m := m) (items.drop (k + 1)) hrun
        hreached.stored hkeep hkeys (by rw [List.append_nil]; exact hextends)
    rw [hfst, ← hloop] at herror
    refine ⟨ids, fs', bytes', m', hfs', hstored', hreached.length_eq.trans_le hk.le,
      fun i hi => hreached.ids_eq i (hreached.length_eq ▸ hi), .inr ⟨⟨e', herror⟩, ?_⟩⟩
    rw [← hreached.zip_eq]
    exact ⟨j, hj, by rw [hentries', List.append_nil]⟩
  case pos =>
    -- the add is on disk, and its id is not among those taken back
    have hafter : (env.adds k).io.afterRename = true := by
      by_contra hnot
      exact hunclean ⟨hcommits, Bool.eq_false_iff.mpr hnot⟩
    obtain ⟨_, -, hdraws, -⟩ := id hcommits
    obtain ⟨id, hid⟩ := Option.isSome_iff_exists.mp hdraws.recordId
    have hnew := hreached.fresh hk hfresh hid
    obtain ⟨out, hrun, hstored⟩ := hreached.stored.add_of_commits (Fs.set_self ..) hkeys hid hnew
      ((hreached.commits_iff hitem).mpr hcommits)
    rw [hafter, if_pos rfl, ← hreached.length_eq, ← hfst] at hrun
    have hpushed : (m₁.push id item hnew).entries
        = m.entries ++ ((ids.zip (items.take k)).map fun pair => (pair.1, some pair.2))
          ++ [(id, some item)] := by
      show m₁.entries ++ [(id, some item)] = _
      rw [hextends]
    obtain ⟨e', fs', bytes', m', herror, hfs', hstored', j, hj, hentries'⟩ :=
      importLoop_retracts_of_add_error (items.drop (k + 1)) hrun hstored (Fs.set_self ..)
        hkeys hpushed
    rw [hfst, ← hloop] at herror
    refine ⟨ids ++ [id], fs', bytes', m', hfs', hstored', ?_, ?_, .inr ⟨⟨e', herror⟩, ?_⟩⟩
    · rw [List.length_append, hreached.length_eq]
      exact hk
    · intro i hi
      rw [List.length_append, hreached.length_eq, List.length_singleton] at hi
      by_cases hik : i < k
      · rw [List.getElem?_append_left (by rw [hreached.length_eq]; exact hik)]
        exact hreached.ids_eq i hik
      · obtain rfl : i = k := by omega
        rw [List.getElem?_append_right hreached.length_eq.le, hreached.length_eq, Nat.sub_self]
        exact hid.symm
    · rw [hreached.zip_append hitem]
      refine ⟨j, ?_, ?_⟩
      · rw [List.length_append]
        exact hj.trans (Nat.le_add_right ..)
      · rw [hentries', List.take_append_of_le_length hj, List.drop_append_of_le_length hj,
          List.map_append, ← List.append_assoc]
        rfl

-- ================================================================= bundles

/-- What a bundle is written of. -/
theorem bytes_of_parseBundle {bundle : Bytes} {parsed : ParsedBundle}
    (h : parseBundle bundle = .ok parsed) :
    ∃ kdfLen ciphertextLen : UInt32, kdfLen.toNat = parsed.kdfParams.length
      ∧ ciphertextLen.toNat = parsed.ciphertextAndTag.length
      ∧ bundle = msexpMagic ++ (leU16 msexpVersionV1 ++ (parsed.sourceVaultId.toList
          ++ (leU32 kdfLen ++ (parsed.kdfParams ++ (parsed.nonce.toList
            ++ (leU32 ciphertextLen ++ (parsed.ciphertextAndTag ++ []))))))) := by
  have hwritten := (serializeBundle_of_parse h).2
  simp only [serializeBundle, u32Len, bind_eq_ok, okOr_eq_ok, u32TryFrom_eq_some, pure_eq_ok,
    Except.ok.injEq] at hwritten
  obtain ⟨-, -, kdfLen, hkdf, ciphertextLen, hciphertext, -, -, -, -, rfl⟩ := hwritten
  exact ⟨kdfLen, ciphertextLen, hkdf, hciphertext,
    by simp only [List.append_assoc, List.append_nil]⟩

/-- No strict prefix of a bundle parses. -/
theorem parseBundle_take {bundle : Bytes} {parsed parsed' : ParsedBundle} {n : Nat}
    (h : parseBundle bundle = .ok parsed) (h' : parseBundle (bundle.take n) = .ok parsed') :
    bundle.length ≤ n := by
  obtain ⟨kdfLen, ctLen, hkdfLen, hctLen, hbundle⟩ := bytes_of_parseBundle h
  obtain ⟨kdfLen', ctLen', hkdfLen', hctLen', htake⟩ := bytes_of_parseBundle h'
  have hsplit := List.take_append_drop n bundle
  rw [htake] at hsplit
  nth_rewrite 2 [hbundle] at hsplit
  simp only [List.append_assoc, List.nil_append] at hsplit
  have hsplit := List.append_cancel_left (List.append_cancel_left hsplit)
  obtain ⟨-, hsplit⟩ := array_append_inj hsplit
  obtain ⟨-, hsplit⟩ := framed_inj hkdfLen' hkdfLen hsplit
  obtain ⟨-, hsplit⟩ := array_append_inj hsplit
  obtain ⟨-, hsplit⟩ := framed_inj hctLen' hctLen hsplit
  exact List.drop_eq_nil_iff.mp hsplit

end MeissnerSeal
