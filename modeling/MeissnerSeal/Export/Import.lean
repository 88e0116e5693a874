/-
What `import` leaves in the target vault, whatever fails inside it.

# Clean prefixes

The `i`-th `add` of an import is clean when it gets past its rename with
nothing failing behind it. A clean prefix of adds extends the stored map
by the items added, in order; the first unclean one ends the loop, and
what a rollback then takes back is exactly the prefix. All of this is
decided by the environment and the item list alone.
-/
import MeissnerSeal.Export.Backup
import Mathlib.Data.Nat.Find

namespace MeissnerSeal

open ByteCodec ExceptRules

namespace ImportEnv

/-- The id the `i`-th `add` draws. -/
def idAt (env : ImportEnv) (i : Nat) : Option ItemId := (env.adds i).draws.recordId

/-- The ids the adds draw have no record yet, and are distinct. -/
def Fresh (env : ImportEnv) (m : ItemMap) (n : Nat) : Prop :=
  ∀ i < n, ∀ id, env.idAt i = some id → id ∉ m.keys ∧ ∀ j < i, env.idAt j ≠ some id

/-- The `i`-th `add`, reached, gets as far as its rename. -/
def AddCommits (env : ImportEnv) (path : Path) (fs : Fs) (m : ItemMap) (items : List PlainItem)
    (i : Nat) : Prop :=
  ∃ item, items[i]? = some item ∧ (env.adds i).draws.ForAdd
    ∧ storedFrameLen (some item) < 2 ^ 32 ∧ m.size + i < maxRecords
    ∧ (env.adds i).Persists path fs

/-- The `i`-th `add`, reached, succeeds. -/
def AddClean (env : ImportEnv) (path : Path) (fs : Fs) (m : ItemMap) (items : List PlainItem)
    (i : Nat) : Prop :=
  env.AddCommits path fs m items i ∧ (env.adds i).io.afterRename = false

/-- The `i`-th rollback `delete`, reached, succeeds. -/
def DeleteClean (env : ImportEnv) (path : Path) (fs : Fs) (i : Nat) : Prop :=
  (env.deletes i).draws.ForFrame ∧ (env.deletes i).Persists path fs
    ∧ (env.deletes i).io.afterRename = false

end ImportEnv

variable {platform : Platform} {v : VaultIdentity platform} {m : ItemMap} {bytes : Bytes}
  {session : UnlockedVault} {fs : Fs} {env : ImportEnv}

/-- Whether a `delete` is clean depends on the files through the temporary
names alone, so it may be asked of the first ones. -/
theorem ImportEnv.deleteClean_set {path : Path} {contents : Option Bytes} {i : Nat} :
    env.DeleteClean path (fs.set path contents) i ↔ env.DeleteClean path fs i := by
  rw [ImportEnv.DeleteClean, ImportEnv.DeleteClean, Env.persists_set]

-- ============================================================== rollback

/-- A rollback succeeds exactly when all its deletes do, and has then
removed the ids from the live items. -/
theorem Stored.rollback_cases (h : Stored v m bytes) (hfs : fs session.path = some bytes)
    (hkeys : session.keys = v.keys) (env : ImportEnv) (ids : List ItemId) (hnodup : ids.Nodup)
    (hlive : ∀ id ∈ ids, ∃ old, m.status id = some (some old)) (i : Nat) :
    ∃ (r : Res Bool) (fs' : Fs) (bytes' : Bytes) (m' : ItemMap),
      rollback platform env session i ids fs = (r, fs') ∧ fs' session.path = some bytes'
      ∧ Stored v m' bytes' ∧ m'.keys = m.keys
      ∧ ((r = .ok true ∧ (m'.live = m.live.filter fun pair => pair.1 ∉ ids)
          ∧ ∀ j < ids.length, env.DeleteClean session.path fs (i + j))
        ∨ ((r = .ok false ∨ r = .error .panic)
          ∧ ¬ ∀ j < ids.length, env.DeleteClean session.path fs (i + j))) := by
  induction ids generalizing m bytes fs i with
  -- nothing to take back
  | nil =>
      refine ⟨.ok true, fs, bytes, m, rfl, hfs, h, rfl, .inl ⟨rfl, ?_, ?_⟩⟩
      · simp
      · intro j hj
        cases hj
  | cons id ids ih =>
      obtain ⟨hnotin, hnodup'⟩ := List.nodup_cons.mp hnodup
      obtain ⟨⟨old, hold⟩, htail⟩ := List.forall_mem_cons.mp hlive
      -- the first `delete` commits, or the rollback ends here
      by_cases hcommits : (Mutation.delete id).Commits (env.deletes i) session.path fs m
      · obtain ⟨out, hrun, hstored⟩ := h.delete_of_commits hfs hkeys hcommits
        obtain ⟨⟨hdraws, -⟩, hpersists⟩ := hcommits
        cases hafter : (env.deletes i).io.afterRename with
        | true =>
            refine ⟨.ok false, fs.set session.path (some out), out, m.assign id none, ?_,
              Fs.set_self .., hstored, TombstoneMap.keys_assign .., .inr ⟨.inl rfl, ?_⟩⟩
            · simp only [rollback, hrun, hafter, if_true]
            · intro hall
              have hclean := (hall 0 (Nat.zero_lt_succ _)).2.2
              rw [Nat.add_zero, hafter] at hclean
              cases hclean
        | false =>
            have htail' : ∀ j ∈ ids, ∃ old, (m.assign id none).status j = some (some old) := by
              intro j hj
              obtain ⟨a, ha⟩ := htail j hj
              have hne : j ≠ id := by
                rintro rfl
                exact hnotin hj
              exact ⟨a, by rw [TombstoneMap.status_assign, if_neg hne, ha]⟩
            obtain ⟨r, fs', bytes', m', hrest, hfs', hstored', hkeys', hcases⟩ :=
              ih hstored (Fs.set_self ..) hnodup' htail' (i + 1)
            have hclean : env.DeleteClean session.path fs i := ⟨hdraws, hpersists, hafter⟩
            -- the deletes that follow count on from this one
            have hall : (∀ j < ids.length,
                env.DeleteClean session.path (fs.set session.path (some out)) (i + 1 + j))
                ↔ ∀ j < (id :: ids).length, env.DeleteClean session.path fs (i + j) := by
              constructor
              · intro hrest j hj
                cases j with
                | zero => exact hclean
                | succ j =>
                    have hj' := hrest j (Nat.lt_of_succ_lt_succ hj)
                    rw [ImportEnv.deleteClean_set, Nat.add_right_comm, Nat.add_assoc] at hj'
                    exact hj'
              · intro hrest j hj
                have hj' := hrest (j + 1) (Nat.succ_lt_succ hj)
                rw [ImportEnv.deleteClean_set, Nat.add_right_comm, Nat.add_assoc]
                exact hj'
            rw [hall] at hcases
            refine ⟨r, fs', bytes', m', ?_, hfs', hstored', ?_, ?_⟩
            · simp only [rollback, hrun, hafter, Bool.false_eq_true, if_false, hrest]
            · rw [hkeys', TombstoneMap.keys_assign]
            · rcases hcases with ⟨hr, hlive', hdeletes⟩ | hbad
              · refine .inl ⟨hr, ?_, hdeletes⟩
                rw [hlive', TombstoneMap.live_assign_none, List.filter_filter]
                refine List.filter_congr fun pair _ => ?_
                simp [Bool.and_comm]
              · exact .inr hbad
      · obtain ⟨e, fs', hrun, hkeep⟩ := h.delete_of_not_commits hfs hkeys hold hcommits
        have hnot : ¬ ∀ j < (id :: ids).length, env.DeleteClean session.path fs (i + j) := by
          intro hall
          obtain ⟨hdraws, hpersists, -⟩ := hall 0 (Nat.zero_lt_succ _)
          exact hcommits ⟨⟨hdraws, old, hold⟩, hpersists⟩
        -- a panic unwinds through the rollback; any other error ends it
        by_cases hpanic : e = .panic
        · subst hpanic
          refine ⟨.error .panic, fs', bytes, m, ?_, hkeep, h, rfl, .inr ⟨.inr rfl, hnot⟩⟩
          simp only [rollback, hrun]
        · refine ⟨.ok false, fs', bytes, m, ?_, hkeep, h, rfl, .inr ⟨.inl rfl, hnot⟩⟩
          simp only [rollback, hrun]

-- ============================================================ the item loop

/-- The first index of a range where a property fails. -/
theorem exists_first {n : Nat} {p : Nat → Prop} (h : ¬ ∀ i < n, p i) :
    ∃ k < n, ¬ p k ∧ ∀ i < k, p i := by
  classical
  have hex : ∃ k, k < n ∧ ¬ p k := by
    by_contra hnone
    refine h fun i hi => ?_
    by_contra hp
    exact hnone ⟨i, hi, hp⟩
  obtain ⟨hlt, hnot⟩ := Nat.find_spec hex
  refine ⟨Nat.find hex, hlt, hnot, fun i hi => ?_⟩
  by_contra hp
  exact Nat.find_min hex hi ⟨Nat.lt_trans hi hlt, hp⟩

/-- Where the loop stands after a clean prefix of adds. -/
structure ImportReached (v : VaultIdentity platform) (env : ImportEnv) (session : UnlockedVault)
    (fs : Fs) (m : ItemMap) (items : List PlainItem) (k : Nat) (ids : List ItemId) (bytes : Bytes)
    (m' : ItemMap) : Prop where
  length_eq : ids.length = k
  ids_eq : ∀ i < k, ids[i]? = env.idAt i
  extends_eq : m.Extends (ids.zip (items.take k)) m'
  stored : Stored v m' bytes
  loop_eq : importLoop platform env session [] items fs
    = importLoop platform env session ids (items.drop k) (fs.set session.path (some bytes))

/-- The ids of the pairs added are the ids returned. -/
theorem ImportReached.map_fst_pairs {items : List PlainItem} {k : Nat} {ids : List ItemId}
    {m' : ItemMap} (h : ImportReached v env session fs m items k ids bytes m')
    (hk : k ≤ items.length) : (ids.zip (items.take k)).map Prod.fst = ids := by
  rw [List.map_fst_zip]
  rw [h.length_eq, List.length_take]
  omega

/-- The id of the next `add` has no record where the loop stands. -/
theorem ImportReached.fresh {items : List PlainItem} {k : Nat} {ids : List ItemId} {m' : ItemMap}
    {id : ItemId} (h : ImportReached v env session fs m items k ids bytes m')
    (hk : k < items.length) (hfresh : env.Fresh m items.length) (hid : env.idAt k = some id) :
    id ∉ m'.keys := by
  obtain ⟨hold, hnew⟩ := hfresh k hk id hid
  rw [h.extends_eq.keys_eq, h.map_fst_pairs (Nat.le_of_lt hk), List.mem_append, not_or]
  refine ⟨hold, fun hmem => ?_⟩
  obtain ⟨j, hj, hget⟩ := List.getElem_of_mem hmem
  rw [h.length_eq] at hj
  have hjd := h.ids_eq j hj
  rw [List.getElem?_eq_getElem (by rw [h.length_eq]; exact hj), hget] at hjd
  exact hnew j hj hjd.symm

/-- The ids already added are distinct and live. -/
theorem ImportReached.nodup {items : List PlainItem} {k : Nat} {ids : List ItemId} {m' : ItemMap}
    (h : ImportReached v env session fs m items k ids bytes m') (hk : k ≤ items.length) :
    ids.Nodup ∧ (∀ id ∈ ids, id ∉ m.keys) := by
  have hnodup := m'.nodup
  have hkeys := h.extends_eq.keys_eq
  rw [h.map_fst_pairs hk] at hkeys
  rw [TombstoneMap.keys] at hkeys
  rw [hkeys, List.nodup_append] at hnodup
  refine ⟨hnodup.2.1, fun id hid hmem => ?_⟩
  exact hnodup.2.2 id hmem id hid rfl

/-- What the import added so far is live, so a rollback finds it. -/
theorem ImportReached.live_of_mem {items : List PlainItem} {k : Nat} {ids : List ItemId}
    {m' : ItemMap} (h : ImportReached v env session fs m items k ids bytes m')
    (hk : k ≤ items.length) : ∀ id ∈ ids, ∃ old, m'.status id = some (some old) := by
  intro id hid
  rw [← h.map_fst_pairs hk] at hid
  obtain ⟨⟨_, item⟩, hpair, rfl⟩ := List.mem_map.mp hid
  refine ⟨item, TombstoneMap.mem_live.mp ?_⟩
  rw [h.extends_eq.live_eq]
  exact List.mem_append_right _ hpair

/-- Whether the next `add` commits is decided by the environment: the map
matters through its size alone. -/
theorem ImportReached.commits_iff {items : List PlainItem} {k : Nat} {ids : List ItemId}
    {m' : ItemMap} {item : PlainItem}
    (h : ImportReached v env session fs m items k ids bytes m') (hitem : items[k]? = some item) :
    (Mutation.add item).Commits (env.adds k) session.path (fs.set session.path (some bytes)) m'
      ↔ env.AddCommits session.path fs m items k := by
  have hk := (List.getElem?_eq_some_iff.mp hitem).1
  have hsize : m'.size = m.size + k := by
    rw [h.extends_eq.size_eq, List.length_zip, h.length_eq, List.length_take]
    omega
  rw [Mutation.Commits, Env.persists_set, Mutation.Ready, hsize, ImportEnv.AddCommits, hitem]
  simp only [Option.some.injEq, exists_eq_left', and_assoc]

/-- Every key where the loop stands is an old one or a drawn one. -/
theorem ImportReached.mem_keys {items : List PlainItem} {k : Nat} {ids : List ItemId}
    {m' : ItemMap} {id : ItemId} (h : ImportReached v env session fs m items k ids bytes m')
    (hk : k ≤ items.length) (hid : id ∈ m'.keys) :
    id ∈ m.keys ∨ ∃ i < k, env.idAt i = some id := by
  rw [h.extends_eq.keys_eq, h.map_fst_pairs hk, List.mem_append] at hid
  rcases hid with hid | hid
  · exact .inl hid
  · obtain ⟨i, hi, hget⟩ := List.getElem_of_mem hid
    have hik : i < k := h.length_eq ▸ hi
    refine .inr ⟨i, hik, ?_⟩
    rw [← h.ids_eq i hik, List.getElem?_eq_getElem hi, hget]

/-- A clean prefix is reached. -/
theorem Stored.importReached (h : Stored v m bytes) (hfs : fs session.path = some bytes)
    (hkeys : session.keys = v.keys) {items : List PlainItem} (hfresh : env.Fresh m items.length)
    (k : Nat) (hk : k ≤ items.length)
    (hclean : ∀ i < k, env.AddClean session.path fs m items i) :
    ∃ ids bytes' m', ImportReached v env session fs m items k ids bytes' m' := by
  induction k with
  | zero =>
      have hset : fs.set session.path (some bytes) = fs := by
        funext p
        by_cases hp : p = session.path
        · rw [hp, Fs.set_self, hfs]
        · rw [Fs.set_of_ne _ _ hp]
      refine ⟨[], bytes, m, rfl, fun i hi => absurd hi (Nat.not_lt_zero i), ?_, h, ?_⟩
      · exact TombstoneMap.Extends.refl m
      · rw [List.drop_zero, hset]
  | succ k ih =>
      obtain ⟨ids, bytes₁, m₁, hreached⟩ := ih (Nat.le_of_succ_le hk)
        fun i hi => hclean i (Nat.lt_succ_of_lt hi)
      obtain ⟨hcommits, hafter⟩ := hclean k (Nat.lt_succ_self k)
      obtain ⟨item, hitem, hdraws, -⟩ := id hcommits
      obtain ⟨id, hid⟩ := Option.isSome_iff_exists.mp hdraws.recordId
      have hnew := hreached.fresh hk hfresh hid
      obtain ⟨out, hrun, hstored⟩ := hreached.stored.add_of_commits (Fs.set_self ..) hkeys hid hnew
        ((hreached.commits_iff hitem).mpr hcommits)
      -- one more item: the id drawn is new to the map
      have hdrop : items.drop k = item :: items.drop (k + 1) := by
        obtain ⟨hlt, rfl⟩ := List.getElem?_eq_some_iff.mp hitem
        exact List.drop_eq_getElem_cons hlt
      have htake : items.take (k + 1) = items.take k ++ [item] := by
        rw [List.take_add_one, hitem]
        rfl
      have hsetset : (fs.set session.path (some bytes₁)).set session.path (some out)
          = fs.set session.path (some out) := by
        funext p
        by_cases hp : p = session.path
        · simp [Fs.set, hp]
        · simp [Fs.set, hp]
      refine ⟨ids ++ [id], out, m₁.push id item hnew, ?_, ?_, ?_, hstored, ?_⟩
      · rw [List.length_append, hreached.length_eq]
        rfl
      · intro i hi
        by_cases hik : i < k
        · rw [List.getElem?_append_left (by rw [hreached.length_eq]; exact hik)]
          exact hreached.ids_eq i hik
        · have hieq : i = k := by omega
          subst hieq
          rw [List.getElem?_append_right (by rw [hreached.length_eq]), hreached.length_eq,
            Nat.sub_self]
          exact hid.symm
      · have hzip : (ids ++ [id]).zip (items.take (k + 1)) = ids.zip (items.take k)
          ++ [(id, item)] := by
          rw [htake, List.zip_append]
          · rfl
          · rw [hreached.length_eq, List.length_take]
            omega
        rw [hzip]
        exact hreached.extends_eq.push id item hnew
      · rw [hreached.loop_eq, hdrop, importLoop]
        simp only [hreached.length_eq, hrun, hafter, Bool.false_eq_true, if_false, hsetset]

/-- When every add is clean, the import succeeds and extends the map by
the items, in order. -/
theorem Stored.importLoop_of_clean (h : Stored v m bytes) (hfs : fs session.path = some bytes)
    (hkeys : session.keys = v.keys) {items : List PlainItem} (hfresh : env.Fresh m items.length)
    (hclean : ∀ i < items.length, env.AddClean session.path fs m items i) :
    ∃ ids bytes' m', importLoop platform env session [] items fs
        = (.ok ids, fs.set session.path (some bytes'))
      ∧ Stored v m' bytes' ∧ ids.length = items.length ∧ (∀ i < items.length, ids[i]? = env.idAt i)
      ∧ m.Extends (ids.zip items) m' := by
  obtain ⟨ids, bytes', m', hreached⟩ := h.importReached hfs hkeys hfresh items.length le_rfl hclean
  refine ⟨ids, bytes', m', ?_, hreached.stored, hreached.length_eq, hreached.ids_eq, ?_⟩
  · rw [hreached.loop_eq, List.drop_length]
    rfl
  · have hextends := hreached.extends_eq
    rw [List.take_length] at hextends
    exact hextends

/-- The error of an import that has rolled back. -/
def rolledBack : CoreError := .invalidState "import add failed; rollback succeeded"

/-- Taking back the added ids leaves what else is live. -/
theorem ImportReached.live_filter {items : List PlainItem} {k : Nat} {ids : List ItemId}
    {m' : ItemMap} (h : ImportReached v env session fs m items k ids bytes m')
    (hk : k ≤ items.length) (rest : List (ItemId × PlainItem))
    (hrest : ∀ pair ∈ rest, pair.1 ∉ ids) :
    ((m'.live ++ rest).filter fun pair => pair.1 ∉ ids) = m.live ++ rest := by
  have hold : ∀ pair ∈ m.live, pair.1 ∉ ids := by
    intro pair hpair hmem
    have hstatus : m.status pair.1 = some (some pair.2) := TombstoneMap.mem_live.mp hpair
    refine (h.nodup hk).2 pair.1 hmem ?_
    by_contra hnot
    rw [TombstoneMap.status_eq_none.mpr hnot] at hstatus
    cases hstatus
  have hnew : ∀ pair ∈ ids.zip (items.take k), ¬ pair.1 ∉ ids := by
    intro pair hpair hnot
    have hmem : pair.1 ∈ (ids.zip (items.take k)).map Prod.fst := List.mem_map_of_mem hpair
    rw [h.map_fst_pairs hk] at hmem
    exact hnot hmem
  rw [h.extends_eq.live_eq, List.filter_append, List.filter_append,
    List.filter_eq_self.mpr (by simpa using hold), List.filter_eq_nil_iff.mpr (by simpa using hnew),
    List.filter_eq_self.mpr (by simpa using hrest), List.append_nil]

section Unclean

variable {items : List PlainItem} {k : Nat} {ids : List ItemId} {bytes₁ : Bytes} {m₁ : ItemMap}

/-- Where the loop stands after the clean prefix. -/
theorem ImportReached.loop_cons (h : ImportReached v env session fs m items k ids bytes₁ m₁)
    (hk : k < items.length) :
    importLoop platform env session [] items fs
      = importLoop platform env session ids (items[k] :: items.drop (k + 1))
        (fs.set session.path (some bytes₁)) := by
  rw [h.loop_eq, List.drop_eq_getElem_cons hk]

/-- The map holds old ids and ids the import has drawn. -/
theorem ImportReached.mem_keys_drawn (h : ImportReached v env session fs m items k ids bytes₁ m₁)
    (hk : k < items.length) :
    ∀ id ∈ m₁.keys, id ∈ m.keys ∨ ∃ i < items.length, env.idAt i = some id := by
  intro id hid
  obtain hold | ⟨i, hi, hdraw⟩ := h.mem_keys (Nat.le_of_lt hk) hid
  · exact .inl hold
  · exact .inr ⟨i, Nat.lt_trans hi hk, hdraw⟩

/-- An `add` that does not commit leaves the file as it was, and a
successful rollback what was live before the import. -/
theorem ImportReached.loop_of_not_commits
    (h : ImportReached v env session fs m items k ids bytes₁ m₁) (hkeys : session.keys = v.keys)
    (hk : k < items.length) (hcommits : ¬ env.AddCommits session.path fs m items k) :
    ∃ e fs' bytes' m', importLoop platform env session [] items fs = (.error e, fs')
      ∧ fs' session.path = some bytes' ∧ Stored v m' bytes'
      ∧ (∀ id ∈ m'.keys, id ∈ m.keys ∨ ∃ i < items.length, env.idAt i = some id)
      ∧ (e = .partialImport ∨ e = .panic ∨ (e = rolledBack ∧ m'.live = m.live)) := by
  have hitem : items[k]? = some items[k] := List.getElem?_eq_getElem hk
  obtain ⟨hnodup, -⟩ := h.nodup (Nat.le_of_lt hk)
  have hmemKeys := h.mem_keys_drawn hk
  have hloop := h.loop_cons hk
  obtain ⟨e, fs₂, hrun, hkeep⟩ := h.stored.add_of_not_commits (Fs.set_self ..) hkeys
    (fun hc => hcommits ((h.commits_iff hitem).mp hc))
  rw [importLoop] at hloop
  simp only [h.length_eq] at hloop
  rw [hrun] at hloop
  by_cases hpanic : e = .panic
  · subst hpanic
    exact ⟨.panic, fs₂, bytes₁, m₁, hloop, hkeep, h.stored, hmemKeys, .inr (.inl rfl)⟩
  · simp only at hloop
    obtain ⟨r, fs', bytes', m', hrollback, hfs', hstored', hsameKeys, hcases⟩ :=
      h.stored.rollback_cases hkeep hkeys env ids hnodup (h.live_of_mem (Nat.le_of_lt hk)) 0
    rw [← hsameKeys] at hmemKeys
    rw [hrollback] at hloop
    obtain ⟨rfl, hfilter, -⟩ | ⟨hbad, -⟩ := hcases
    · refine ⟨rolledBack, fs', bytes', m', hloop, hfs', hstored', hmemKeys, .inr (.inr ⟨rfl, ?_⟩)⟩
      have hback := h.live_filter (Nat.le_of_lt hk) [] (by simp)
      rw [List.append_nil, List.append_nil] at hback
      rw [hfilter, hback]
    · obtain rfl | rfl := hbad
      · exact ⟨.partialImport, fs', bytes', m', hloop, hfs', hstored', hmemKeys, .inl rfl⟩
      · exact ⟨.panic, fs', bytes', m', hloop, hfs', hstored', hmemKeys, .inr (.inl rfl)⟩

/-- An `add` that commits and then fails at the parent directory leaves its
item behind, whatever a rollback takes back. -/
theorem ImportReached.loop_of_commits (h : ImportReached v env session fs m items k ids bytes₁ m₁)
    (hkeys : session.keys = v.keys) (hfresh : env.Fresh m items.length) (hk : k < items.length)
    (hcommits : env.AddCommits session.path fs m items k)
    (hafter : (env.adds k).io.afterRename = true) :
    ∃ e fs' bytes' m', importLoop platform env session [] items fs = (.error e, fs')
      ∧ fs' session.path = some bytes' ∧ Stored v m' bytes'
      ∧ (∀ id ∈ m'.keys, id ∈ m.keys ∨ ∃ i < items.length, env.idAt i = some id)
      ∧ (((e = .partialImport ∨ e = .panic) ∧ ¬ ∀ j < k, env.DeleteClean session.path fs j)
        ∨ (e = rolledBack ∧ (∀ j < k, env.DeleteClean session.path fs j)
          ∧ ∃ id item, env.idAt k = some id ∧ items[k]? = some item
            ∧ m'.live = m.live ++ [(id, item)])) := by
  have hitem : items[k]? = some items[k] := List.getElem?_eq_getElem hk
  obtain ⟨hnodup, -⟩ := h.nodup (Nat.le_of_lt hk)
  have hloop := h.loop_cons hk
  obtain ⟨_, -, hdraws, -⟩ := id hcommits
  obtain ⟨id, hid⟩ := Option.isSome_iff_exists.mp hdraws.recordId
  have hnew := h.fresh hk hfresh hid
  obtain ⟨out, hrun, hstored⟩ := h.stored.add_of_commits (Fs.set_self ..) hkeys hid hnew
    ((h.commits_iff hitem).mpr hcommits)
  rw [importLoop] at hloop
  simp only [h.length_eq] at hloop
  rw [hrun, hafter] at hloop
  simp only [if_true] at hloop
  -- all the ids collected are live; the one just added is not among them
  have hlive : ∀ j ∈ ids, ∃ old, (m₁.push id items[k] hnew).status j = some (some old) := by
    intro j hj
    obtain ⟨old, hold⟩ := h.live_of_mem (Nat.le_of_lt hk) j hj
    by_cases hjid : j = id
    · exact ⟨items[k], by rw [TombstoneMap.status_push, if_pos hjid]⟩
    · exact ⟨old, by rw [TombstoneMap.status_push, if_neg hjid, hold]⟩
  obtain ⟨r, fs', bytes', m', hrollback, hfs', hstored', hsameKeys, hcases⟩ :=
    hstored.rollback_cases (Fs.set_self ..) hkeys env ids hnodup hlive 0
  have hdrawn : ∀ j ∈ m'.keys, j ∈ m.keys ∨ ∃ i < items.length, env.idAt i = some j := by
    intro j hj
    rw [hsameKeys, TombstoneMap.keys_push, List.mem_append, List.mem_singleton] at hj
    obtain hj | rfl := hj
    · exact h.mem_keys_drawn hk j hj
    · exact .inr ⟨k, hk, hid⟩
  have hsame : ∀ j, env.DeleteClean session.path
      ((fs.set session.path (some bytes₁)).set session.path (some out)) j
      ↔ env.DeleteClean session.path fs j := by
    intro j
    rw [ImportEnv.deleteClean_set, ImportEnv.deleteClean_set]
  simp only [h.length_eq, Nat.zero_add] at hcases
  rw [hrollback] at hloop
  obtain ⟨rfl, hfilter, hdeletes⟩ | ⟨hbad, hdeletes⟩ := hcases
  · -- every delete is clean: what is left over is the item that was not collected
    refine ⟨rolledBack, fs', bytes', m', hloop, hfs', hstored', hdrawn, .inr ⟨rfl,
      fun j hj => (hsame j).mp (hdeletes j hj), id, items[k], hid, hitem, ?_⟩⟩
    rw [hfilter, TombstoneMap.live_push]
    refine h.live_filter (Nat.le_of_lt hk) [(id, items[k])] ?_
    intro pair hpair hmem
    rw [List.mem_singleton.mp hpair] at hmem
    rw [h.extends_eq.keys_eq, h.map_fst_pairs (Nat.le_of_lt hk)] at hnew
    exact hnew (List.mem_append_right _ hmem)
  · have hnot : ¬ ∀ j < k, env.DeleteClean session.path fs j :=
      fun hall => hdeletes fun j hj => (hsame j).mpr (hall j hj)
    obtain rfl | rfl := hbad
    · exact ⟨.partialImport, fs', bytes', m', hloop, hfs', hstored', hdrawn, .inl ⟨.inl rfl, hnot⟩⟩
    · exact ⟨.panic, fs', bytes', m', hloop, hfs', hstored', hdrawn, .inl ⟨.inr rfl, hnot⟩⟩

end Unclean

/-- The first unclean add ends the import. If it did not commit, what a
successful rollback leaves live is what was live before; if it did, a
successful rollback leaves its item behind. -/
theorem Stored.importLoop_of_unclean (h : Stored v m bytes) (hfs : fs session.path = some bytes)
    (hkeys : session.keys = v.keys) {items : List PlainItem} (hfresh : env.Fresh m items.length)
    {k : Nat} (hk : k < items.length) (hclean : ∀ i < k, env.AddClean session.path fs m items i)
    (hunclean : ¬ env.AddClean session.path fs m items k) :
    ∃ e fs' bytes' m', importLoop platform env session [] items fs = (.error e, fs')
      ∧ fs' session.path = some bytes' ∧ Stored v m' bytes'
      ∧ (∀ id ∈ m'.keys, id ∈ m.keys ∨ ∃ i < items.length, env.idAt i = some id)
      ∧ ((¬ env.AddCommits session.path fs m items k
          ∧ (e = .partialImport ∨ e = .panic ∨ (e = rolledBack ∧ m'.live = m.live)))
        ∨ (env.AddCommits session.path fs m items k
          ∧ (((e = .partialImport ∨ e = .panic)
              ∧ ¬ ∀ j < k, env.DeleteClean session.path fs j)
            ∨ (e = rolledBack ∧ (∀ j < k, env.DeleteClean session.path fs j)
              ∧ ∃ id item, env.idAt k = some id ∧ items[k]? = some item
                ∧ m'.live = m.live ++ [(id, item)])))) := by
  obtain ⟨ids, bytes₁, m₁, hreached⟩ :=
    h.importReached hfs hkeys hfresh k (Nat.le_of_lt hk) hclean
  by_cases hcommits : env.AddCommits session.path fs m items k
  · have hafter : (env.adds k).io.afterRename = true := by
      by_contra hnot
      exact hunclean ⟨hcommits, by simpa using hnot⟩
    obtain ⟨e, fs', bytes', m', hloop, hfs', hstored, hdrawn, hcases⟩ :=
      hreached.loop_of_commits hkeys hfresh hk hcommits hafter
    exact ⟨e, fs', bytes', m', hloop, hfs', hstored, hdrawn, .inr ⟨hcommits, hcases⟩⟩
  · obtain ⟨e, fs', bytes', m', hloop, hfs', hstored, hdrawn, hcases⟩ :=
      hreached.loop_of_not_commits hkeys hk hcommits
    exact ⟨e, fs', bytes', m', hloop, hfs', hstored, hdrawn, .inl ⟨hcommits, hcases⟩⟩

/-- Whatever fails in an import, the file it leaves stores a map. -/
theorem Stored.importLoop_stored (h : Stored v m bytes) (hfs : fs session.path = some bytes)
    (hkeys : session.keys = v.keys) {items : List PlainItem} (hfresh : env.Fresh m items.length) :
    ∃ m' bytes', (importLoop platform env session [] items fs).2 session.path = some bytes'
      ∧ Stored v m' bytes'
      ∧ ∀ id ∈ m'.keys, id ∈ m.keys ∨ ∃ i < items.length, env.idAt i = some id := by
  by_cases hclean : ∀ i < items.length, env.AddClean session.path fs m items i
  · obtain ⟨ids, bytes', m', hreached⟩ :=
      h.importReached hfs hkeys hfresh items.length le_rfl hclean
    refine ⟨m', bytes', ?_, hreached.stored, fun id hid => hreached.mem_keys le_rfl hid⟩
    rw [hreached.loop_eq, List.drop_length]
    exact Fs.set_self ..
  · obtain ⟨k, hk, hunclean, hleading⟩ := exists_first hclean
    obtain ⟨e, fs', bytes', m', hrun, hfile, hstored, hids, -⟩ :=
      h.importLoop_of_unclean hfs hkeys hfresh hk hleading hunclean
    refine ⟨m', bytes', ?_, hstored, hids⟩
    rw [hrun]
    exact hfile

-- ========================================================= the whole call

/-- The reader of the items returns as many as it was asked for. -/
theorem takeItems_length {bytes : Bytes} {count cursor stop : Nat} {items : List PlainItem}
    (h : takeItems bytes count cursor = .ok (items, stop)) : items.length = count := by
  induction count generalizing cursor stop items with
  | zero =>
      simp only [takeItems, Except.ok.injEq, Prod.mk.injEq] at h
      rw [← h.1]
      rfl
  | succ count ih =>
      simp only [takeItems, bind_eq_ok, pure_eq_ok, Except.ok.injEq, Prod.mk.injEq] at h
      obtain ⟨⟨item, cursor'⟩, -, ⟨rest, stop'⟩, hrest, rfl, -⟩ := h
      have hlen : rest.length = count := ih hrest
      rw [List.length_cons, hlen]

/-- No bundle authenticates to more items than the ceiling. -/
theorem authenticate_length_le {bundle passphrase : Bytes} {items : List PlainItem}
    (h : authenticate platform bundle passphrase = .ok items) :
    items.length ≤ maxExportItemCount := by
  simp only [authenticate, deserializeItemSet, bind_eq_ok, rejectIf_eq_ok, pure_eq_ok,
    Except.ok.injEq] at h
  obtain ⟨-, -, parsed, -, kdfParams, -, key, -, plaintext, -, ⟨count, cursor⟩, -, -, hcount,
    ⟨rest, stop⟩, hitems, -, -, rfl⟩ := h
  have hlen : rest.length = count := takeItems_length hitems
  rw [hlen]
  exact not_lt.mp hcount

/-- An import that succeeds has added the items of its bundle. -/
theorem Stored.of_importBundle {env : ImportEnv} {bundle passphrase : Bytes} {ids : List ItemId}
    {fs' : Fs} (h : Stored v m bytes) (hfs : fs session.path = some bytes)
    (hkeys : session.keys = v.keys)
    (hfresh : env.Fresh m maxExportItemCount)
    (himport : importBundle platform env session bundle passphrase fs = (.ok ids, fs')) :
    ∃ items, authenticate platform bundle passphrase = .ok items ∧ ids.length = items.length
      ∧ ∃ out m', fs' session.path = some out ∧ Stored v m' out
        ∧ m.Extends (ids.zip items) m' ∧ ∀ i < items.length, ids[i]? = env.idAt i := by
  simp only [importBundle, FsM.bind_apply, FsM.lift] at himport
  cases hitems : authenticate platform bundle passphrase with
  | error e => simp only [hitems, Prod.mk.injEq, reduceCtorEq, false_and] at himport
  | ok items =>
      simp only [hitems] at himport
      have hle := authenticate_length_le hitems
      have hfresh' : env.Fresh m items.length :=
        fun i hi => hfresh i (Nat.lt_of_lt_of_le hi hle)
      by_cases hclean : ∀ i < items.length, env.AddClean session.path fs m items i
      · obtain ⟨ids', bytes', m', hrun, hstored, hlen, hids, hextends⟩ :=
          h.importLoop_of_clean hfs hkeys hfresh' hclean
        rw [himport, Prod.mk.injEq, Except.ok.injEq] at hrun
        obtain ⟨rfl, rfl⟩ := hrun
        exact ⟨items, rfl, hlen, bytes', m', Fs.set_self .., hstored, hextends, hids⟩
      · obtain ⟨k, hk, hunclean, hleading⟩ := exists_first hclean
        obtain ⟨e, fs'', -, -, hrun, -⟩ :=
          h.importLoop_of_unclean hfs hkeys hfresh' hk hleading hunclean
        rw [himport] at hrun
        cases hrun

end MeissnerSeal
