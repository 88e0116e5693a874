/-
The item store refines a map from ids to items.

# The abstract store

`StoreStep m call reply m'` is the store as its users think of it: an
insertion-ordered map in which a deleted id stays known. It says what
each call returns and what it makes of the map, and nothing of files,
frames or keys. `StoreRun` is a run of it.

# The refinement

`store_refines_map`: in every history without failing draws or system
calls, in which every item written is within the decoder's limits and
no id is drawn twice, the replies are those of a run of the abstract
store from the empty map.
-/
import MeissnerSeal.Vault.History

namespace MeissnerSeal

open ByteCodec ExceptRules

variable {β : Type}

/-- One call on the abstract store. An `add` fails only when the table
holds its 2²⁶ records. -/
inductive StoreStep : ItemMap → StoreCall β → Reply β → ItemMap → Prop where
  | added {m : ItemMap} {env : Env} {item : PlainItem} {id : ItemId}
      (hid : env.draws.recordId = some id) (hnew : id ∉ m.keys) :
      StoreStep m (.mutate env (.add item)) (.mutated (.ok (some id))) (m.push id item hnew)
  | full {m : ItemMap} {env : Env} {item : PlainItem} {e : CoreError}
      (hfull : m.size = maxRecords) :
      StoreStep m (.mutate env (.add item)) (.mutated (.error e)) m
  | updated {m : ItemMap} {env : Env} {id : ItemId} {item old : PlainItem}
      (hlive : m.status id = some (some old)) :
      StoreStep m (.mutate env (.update id item)) (.mutated (.ok none)) (m.assign id (some item))
  | updateNotFound {m : ItemMap} {env : Env} {id : ItemId} {item : PlainItem}
      (hlive : ∀ old, m.status id ≠ some (some old)) :
      StoreStep m (.mutate env (.update id item)) (.mutated (.error (.notFound (idHex id)))) m
  | deleted {m : ItemMap} {env : Env} {id : ItemId} {old : PlainItem}
      (hlive : m.status id = some (some old)) :
      StoreStep m (.mutate env (.delete id)) (.mutated (.ok none)) (m.assign id none)
  | deletedAgain {m : ItemMap} {env : Env} {id : ItemId} (hdead : m.status id = some none) :
      StoreStep m (.mutate env (.delete id)) (.mutated (.ok none)) m
  | deleteNotFound {m : ItemMap} {env : Env} {id : ItemId} (habsent : m.status id = none) :
      StoreStep m (.mutate env (.delete id)) (.mutated (.error (.notFound (idHex id)))) m
  | listed {m : ItemMap} {io : IoFaults} :
      StoreStep m (.list io) (.listed (.ok (liveSummaries m))) m
  | viewed {m : ItemMap} {io : IoFaults} {id : ItemId} {item : PlainItem}
      {f : DecodedItem → Res β} (hlive : m.status id = some (some item)) :
      StoreStep m (.withItem io id f) (.viewed (f item.view)) m
  | viewNotFound {m : ItemMap} {io : IoFaults} {id : ItemId} {f : DecodedItem → Res β}
      (hlive : ∀ old, m.status id ≠ some (some old)) :
      StoreStep m (.withItem io id f) (.viewed (.error (.notFound (idHex id)))) m

/-- A run of the abstract store from the empty map. -/
inductive StoreRun : Calls β → ItemMap → Prop where
  | start : StoreRun [] TombstoneMap.empty
  | step {calls : Calls β} {call : StoreCall β} {reply : Reply β} {m m' : ItemMap}
      (hrun : StoreRun calls m) (hstep : StoreStep m call reply m') :
      StoreRun (calls ++ [(call, reply)]) m'

-- ========================================================== quiet calls

/-- The item the call writes is within the decoder's limits. -/
def Mutation.WithinLimits : Mutation → Prop
  | .add item => item.WithinLimits
  | .update _ item => item.WithinLimits
  | .delete _ => True

/-- A store call in which nothing fails around the store and nothing is
written that cannot be read: no draw and no system call fails, and the
temporary name it draws is free. -/
def StoreCall.Quiet (path : Path) (fs : Fs) : StoreCall β → Prop
  | .mutate env call => env.Persists path fs ∧ env.io.afterRename = false ∧ call.Drawn env.draws
      ∧ call.WithinLimits
  | .list io => io.read = false
  | .withItem io _ _ => io.read = false
  | .importBundle _ _ _ => False

/-- What the decoder accepts fits a frame. -/
theorem storedFrameLen_lt {item : PlainItem} (h : item.WithinLimits) :
    storedFrameLen (some item) < 2 ^ 32 := by
  have hle := h.payloadLen_le
  rw [storedFrameLen]
  omega

/-- A call that is drawn, within the limits, and not ready, meets a full
table or an id that is not live. -/
theorem Mutation.not_ready {draws : Draws} {m : ItemMap} {call : Mutation}
    (hdrawn : call.Drawn draws) (hlimits : call.WithinLimits) (hready : ¬ call.Ready draws m) :
    match call with
    | .add _ => ¬ m.size < maxRecords
    | .update id _ => ∀ old, m.status id ≠ some (some old)
    | .delete id => ∀ old, m.status id ≠ some (some old) := by
  cases call with
  | add item => exact fun hsize => hready ⟨hdrawn, storedFrameLen_lt hlimits, hsize⟩
  | update id item =>
      exact fun old hold => hready ⟨hdrawn, storedFrameLen_lt hlimits, old, hold⟩
  | delete id => exact fun old hold => hready ⟨hdrawn, old, hold⟩

variable {platform : Platform} {v : VaultIdentity platform} {m : ItemMap} {bytes : Bytes}
  {path : Path} {fs : Fs}

/-- Writing a readable item keeps every live item readable. -/
theorem AllWithinLimits.apply {draws : Draws} {call : Mutation} (h : AllWithinLimits m)
    (hlimits : call.WithinLimits) : AllWithinLimits (call.apply draws m) := by
  intro j item hmem
  rw [TombstoneMap.mem_live] at hmem
  cases call with
  | add new =>
      simp only [Mutation.apply] at hmem
      cases hid : draws.recordId with
      | none =>
          rw [hid] at hmem
          exact h j item (TombstoneMap.mem_live.mpr hmem)
      | some id =>
          simp only [hid] at hmem
          by_cases hnew : id ∉ m.keys
          · rw [TombstoneMap.insert_of_not_mem new hnew, TombstoneMap.status_push] at hmem
            by_cases hj : j = id
            · rw [if_pos hj, Option.some.injEq, Option.some.injEq] at hmem
              rw [← hmem]
              exact hlimits
            · rw [if_neg hj] at hmem
              exact h j item (TombstoneMap.mem_live.mpr hmem)
          · rw [TombstoneMap.insert, dif_neg hnew] at hmem
            exact h j item (TombstoneMap.mem_live.mpr hmem)
  | update id new =>
      rw [Mutation.apply, TombstoneMap.status_assign] at hmem
      by_cases hj : j = id
      · rw [if_pos hj, Option.map_eq_some_iff] at hmem
        obtain ⟨-, -, heq⟩ := hmem
        rw [Option.some.injEq] at heq
        rw [← heq]
        exact hlimits
      · rw [if_neg hj] at hmem
        exact h j item (TombstoneMap.mem_live.mpr hmem)
  | delete id =>
      rw [Mutation.apply, TombstoneMap.status_assign] at hmem
      by_cases hj : j = id
      · rw [if_pos hj, Option.map_eq_some_iff] at hmem
        obtain ⟨-, -, heq⟩ := hmem
        cases heq
      · rw [if_neg hj] at hmem
        exact h j item (TombstoneMap.mem_live.mpr hmem)

/-- A quiet mutation is one step of the abstract store. -/
theorem Stored.mutate_refines {env : Env} {call : Mutation} (h : Stored v m bytes)
    (hfs : fs path = some bytes) (hall : AllWithinLimits m) (hpersists : env.Persists path fs)
    (hafter : env.io.afterRename = false) (hdrawn : call.Drawn env.draws)
    (hlimits : call.WithinLimits) (hfresh : call.Fresh env.draws m) :
    ∃ (r : Res (Option ItemId)) (fs' : Fs) (m' : ItemMap) (bytes' : Bytes),
      call.run platform env (v.session path) fs = (r, fs')
      ∧ fs' path = some bytes' ∧ AgreesOff path fs fs' ∧ Stored v m' bytes' ∧ AllWithinLimits m'
      ∧ (m' = call.apply env.draws m ∨ m' = m)
      ∧ StoreStep m (.mutate env call : StoreCall β) (.mutated r) m' := by
  have hfile : fs (v.session path).path = some bytes := hfs
  have hkeys : (v.session path).keys = v.keys := rfl
  have hread := hpersists.1
  -- a call that is ready commits; one that is not fails as the
  -- abstract map has it
  by_cases hready : call.Ready env.draws m
  · obtain ⟨out, hrun, hstored⟩ := h.run_of_commits hfile hkeys hfresh ⟨hready, hpersists⟩
    rw [hafter] at hrun
    refine ⟨_, _, _, out, hrun, Fs.set_self .., fun p hp => Fs.set_of_ne _ _ hp, hstored,
      hall.apply hlimits, .inl rfl, ?_⟩
    cases call with
    | add item =>
        obtain ⟨id, hid⟩ := Option.isSome_iff_exists.mp hready.1.recordId
        simp only [Mutation.apply, Mutation.reply, hid,
          TombstoneMap.insert_of_not_mem item (hfresh id hid), Bool.false_eq_true, if_false]
        exact StoreStep.added hid (hfresh id hid)
    | update id item =>
        obtain ⟨-, -, old, hold⟩ := hready
        exact StoreStep.updated hold
    | delete id =>
        obtain ⟨-, old, hold⟩ := hready
        exact StoreStep.deleted hold
  · -- why it is not: the map is full, or the id is not live
    have hwhy := Mutation.not_ready hdrawn hlimits hready
    have hkeep : AgreesOff path fs fs := fun p _ => rfl
    rw [Mutation.run_eq_mutate]
    cases call with
    | add item =>
        rcases h.plan_of_not_ready hkeys hready with ⟨e, hplan⟩ | ⟨-, id, hcall, -⟩
        · refine ⟨_, fs, m, bytes, mutate_of_plan_error hfile hread hplan, hfs, hkeep, h, hall,
            .inr rfl, ?_⟩
          exact StoreStep.full (Nat.le_antisymm h.size_le (not_lt.mp hwhy))
        · cases hcall
    | update id item =>
        have hplan : (Mutation.update id item).plan platform env.draws (v.session path) bytes
            = .error (.notFound (idHex id)) := by
          rw [Mutation.plan, h.planUpdate_of_not_live hkeys hwhy]
          rfl
        exact ⟨_, fs, m, bytes, mutate_of_plan_error hfile hread hplan, hfs, hkeep, h, hall,
          .inr rfl, StoreStep.updateNotFound hwhy⟩
    | delete id =>
        cases hstatus : m.status id with
        | none =>
            have hplan : (Mutation.delete id).plan platform env.draws (v.session path) bytes
                = .error (.notFound (idHex id)) := by
              rw [Mutation.plan, h.planDelete_of_absent hkeys hstatus]
              rfl
            exact ⟨_, fs, m, bytes, mutate_of_plan_error hfile hread hplan, hfs, hkeep, h, hall,
              .inr rfl, StoreStep.deleteNotFound hstatus⟩
        | some content =>
            cases content with
            | some old => exact absurd hstatus (hwhy old)
            | none =>
                have hplan : (Mutation.delete id).plan platform env.draws (v.session path) bytes
                    = .ok ⟨none, none⟩ := by
                  rw [Mutation.plan, h.planDelete_of_dead hkeys hstatus]
                  rfl
                exact ⟨_, fs, m, bytes, mutate_of_noop hfile hread hplan, hfs, hkeep, h, hall,
                  .inr rfl, StoreStep.deletedAgain hstatus⟩

/-- A quiet call is one step of the abstract store. -/
theorem Stored.call_refines {call : StoreCall β} {ids : List ItemId} (h : Stored v m bytes)
    (hfs : fs path = some bytes) (hall : AllWithinLimits m) (hkeys : ∀ id ∈ m.keys, id ∈ ids)
    (hquiet : call.Quiet path fs) (hnodup : (ids ++ call.drawn).Nodup) :
    ∃ (reply : Reply β) (fs' : Fs) (m' : ItemMap) (bytes' : Bytes),
      call.run platform (v.session path) fs = (reply, fs')
      ∧ fs' path = some bytes' ∧ AgreesOff path fs fs' ∧ Stored v m' bytes' ∧ AllWithinLimits m'
      ∧ (∀ id ∈ m'.keys, id ∈ ids ++ call.drawn) ∧ StoreStep m call reply m' := by
  have hfile : fs (v.session path).path = some bytes := hfs
  have hsession : (v.session path).keys = v.keys := rfl
  have hkeep : AgreesOff path fs fs := fun p _ => rfl
  have hold : ∀ id ∈ m.keys, id ∈ ids ++ call.drawn :=
    fun id hid => List.mem_append_left _ (hkeys id hid)
  cases call with
  -- the three mutations are one lemma
  | mutate env call =>
      obtain ⟨hpersists, hafter, hdrawn, hlimits⟩ := hquiet
      have hfresh := Mutation.fresh_of_nodup hkeys hnodup
      obtain ⟨r, fs', m', bytes', hrun, hfs', hoff, hstored, hall', hm, hstep⟩ :=
        h.mutate_refines hfs hall hpersists hafter hdrawn hlimits hfresh
      refine ⟨.mutated r, fs', m', bytes', ?_, hfs', hoff, hstored, hall', ?_, hstep⟩
      · simp only [StoreCall.run, hrun]
      · rcases hm with rfl | rfl
        · exact Mutation.keys_apply_drawn hkeys
        · exact hold
  | list io =>
      have hlist := (h.list_eq_ok hfile hsession hquiet).mpr ⟨hall, rfl⟩
      refine ⟨.listed (.ok (liveSummaries m)), fs, m, bytes, ?_, hfs, hkeep, h, hall, hold,
        StoreStep.listed⟩
      simp only [StoreCall.run, hlist, list_fs]
  | withItem io id f =>
      by_cases hlive : ∃ item, m.status id = some (some item)
      · obtain ⟨item, hitem⟩ := hlive
        have hlimits := hall id item (TombstoneMap.mem_live.mpr hitem)
        have hrun := h.withItem_of_live f hfile hsession hquiet hitem hlimits
        refine ⟨.viewed (f item.view), fs, m, bytes, ?_, hfs, hkeep, h, hall, hold,
          StoreStep.viewed hitem⟩
        simp only [StoreCall.run, hrun]
      · have hnot : ∀ old, m.status id ≠ some (some old) := fun old ho => hlive ⟨old, ho⟩
        have hrun := h.withItem_of_not_live f hfile hsession hquiet hnot
        refine ⟨.viewed (.error (.notFound (idHex id))), fs, m, bytes, ?_, hfs, hkeep,
          h, hall, hold, StoreStep.viewNotFound hnot⟩
        simp only [StoreCall.run, hrun]
  | importBundle env bundle passphrase => exact absurd hquiet id

-- ================================================================== runs

/-- The id a call is about; an `add` is about the id it draws. -/
def StoreCall.target : StoreCall β → Option ItemId
  | .mutate env (.add _) => env.draws.recordId
  | .mutate _ (.update id _) => some id
  | .mutate _ (.delete id) => some id
  | .list _ => none
  | .withItem _ _ _ => none
  | .importBundle _ _ _ => none

/-- A step at one id leaves every other id as it was. -/
theorem StoreStep.status_eq {call : StoreCall β} {reply : Reply β} {m' : ItemMap} {id : ItemId}
    (h : StoreStep m call reply m') (hid : call.target ≠ some id) : m'.status id = m.status id := by
  cases h with
  | added hdraw hnew =>
      rw [TombstoneMap.status_push, if_neg]
      rintro rfl
      exact hid hdraw
  | updated hlive =>
      rw [TombstoneMap.status_assign, if_neg]
      rintro rfl
      exact hid rfl
  | deleted hlive =>
      rw [TombstoneMap.status_assign, if_neg]
      rintro rfl
      exact hid rfl
  | full => rfl
  | updateNotFound => rfl
  | deletedAgain => rfl
  | deleteNotFound => rfl
  | listed => rfl
  | viewed => rfl
  | viewNotFound => rfl

/-- A step at one id leaves the other entries of the listing, in order. -/
theorem StoreStep.summaries_eq {call : StoreCall β} {reply : Reply β} {m' : ItemMap} {id : ItemId}
    (h : StoreStep m call reply m') (hid : call.target = some id) :
    ((liveSummaries m').filter fun summary => summary.id ≠ id)
      = (liveSummaries m).filter fun summary => summary.id ≠ id := by
  have hlive : (m'.live.filter fun pair => pair.1 ≠ id) = m.live.filter fun pair =>
    pair.1 ≠ id := by
    cases h with
    | added hdraw hnew =>
        rw [StoreCall.target, hdraw, Option.some.injEq] at hid
        rw [TombstoneMap.live_push, List.filter_append, hid]
        simp
    | updated hlive =>
        rw [StoreCall.target, Option.some.injEq] at hid
        rw [← hid, TombstoneMap.live_filter_assign]
    | deleted hlive =>
        rw [StoreCall.target, Option.some.injEq] at hid
        rw [← hid, TombstoneMap.live_filter_assign]
    | full => rfl
    | updateNotFound => rfl
    | deletedAgain => rfl
    | deleteNotFound => rfl
    | listed => rfl
    | viewed => rfl
    | viewNotFound => rfl
  rw [liveSummaries, liveSummaries, List.filter_map, List.filter_map]
  exact congrArg _ hlive

/-- What a view of a stored id returns. -/
theorem Stored.withItem_eq {io : IoFaults} (h : Stored v m bytes) (hfs : fs path = some bytes)
    (hall : AllWithinLimits m) (hread : io.read = false) (id : ItemId) (f : DecodedItem → Res β) :
    (withItem platform io (v.session path) id f fs).1
      = match m.status id with
        | some (some item) => f item.view
        | _ => .error (.notFound (idHex id)) := by
  have hfile : fs (v.session path).path = some bytes := hfs
  have hkeys : (v.session path).keys = v.keys := rfl
  split
  case h_1 item hitem =>
    have hlimits := hall id item (TombstoneMap.mem_live.mpr hitem)
    rw [h.withItem_of_live f hfile hkeys hread hitem hlimits]
  case h_2 hnot =>
    rw [h.withItem_of_not_live f hfile hkeys hread fun old ho => hnot old ho]

/-- Whether a write persists depends on the files through the temporary name
alone, which is not the path. -/
theorem Env.persists_congr {env : Env} {fs' : Fs} (hoff : AgreesOff path fs fs') :
    env.Persists path fs' ↔ env.Persists path fs := by
  have hclear : ∀ seed, ReachesRename env.io fs' (uniqueTmpPath path seed)
      ↔ ReachesRename env.io fs (uniqueTmpPath path seed) := by
    intro seed
    have htmp : (uniqueTmpPath path seed).NamesFile →
        fs' (uniqueTmpPath path seed) = fs (uniqueTmpPath path seed) :=
      fun hfile => hoff _ (uniqueTmpPath_apart path seed hfile).symm
    unfold ReachesRename
    constructor
    · rintro ⟨hcreate, hfile, hfree, hrest⟩
      exact ⟨hcreate, hfile, (htmp hfile).symm.trans hfree, hrest⟩
    · rintro ⟨hcreate, hfile, hfree, hrest⟩
      exact ⟨hcreate, hfile, (htmp hfile).trans hfree, hrest⟩
  simp only [Env.Persists, hclear]

/-- So a call that is quiet at the first files is quiet at every later ones. -/
theorem StoreCall.Quiet.congr {call : StoreCall β} {fs' : Fs} (hoff : AgreesOff path fs fs')
    (h : call.Quiet path fs) : call.Quiet path fs' := by
  cases call with
  | mutate env call => exact ⟨(Env.persists_congr hoff).mpr h.1, h.2⟩
  | list io => exact h
  | withItem io id f => exact h
  | importBundle env bundle passphrase => exact h

/-- Quiet histories reach vaults whose map the abstract store reaches
with the same replies. -/
theorem History.refines {password : Bytes} {fs₀ : Fs} {st : VaultState} {calls : Calls β}
    (h : History platform path password fs₀ st calls)
    (hquiet : ∀ entry ∈ calls, entry.1.Quiet path fs₀) (hnodup : (drawnIds calls).Nodup) :
    ∃ (v : VaultIdentity platform) (m : ItemMap) (bytes : Bytes), v.password = password
      ∧ Reached v path st (drawnIds calls) m bytes ∧ AllWithinLimits m
      ∧ AgreesOff path fs₀ st.fs ∧ StoreRun calls m := by
  induction h with
  | created hcreate =>
      obtain ⟨v, bytes, hv, hstored, rfl, -⟩ := create_eq_ok hcreate
      refine ⟨v, TombstoneMap.empty, bytes, hv, ⟨Fs.set_self .., hstored, ?_, ?_⟩, ?_,
        fun p hp => Fs.set_of_ne _ _ hp, StoreRun.start⟩
      · intro id hid
        cases hid
      · intro session hsession
        cases hsession
      · intro id item hmem
        cases hmem
  | unlocked _ hunlock ih =>
      obtain ⟨v, m, bytes, rfl, hreached, hall, hoff, hrun⟩ := ih hquiet hnodup
      obtain ⟨rfl, rfl⟩ := hreached.stored.of_unlock hreached.file hunlock
      refine ⟨v, m, bytes, rfl, ⟨hreached.file, hreached.stored, hreached.keys_drawn,
        ?_⟩, hall, hoff, hrun⟩
      exact List.forall_mem_cons.mpr ⟨rfl, hreached.sessions⟩
  -- one more call: its reply is a step of the map, and the rest stays
  | @called st calls session _ hsession call ih =>
      rw [drawnIds_append] at hnodup
      have hcalls : ∀ entry ∈ calls, entry.1.Quiet path fs₀ :=
        fun entry hmem => hquiet entry (List.mem_append_left _ hmem)
      have hcall : call.Quiet path fs₀ :=
        hquiet _ (List.mem_append_right _ (List.mem_singleton_self _))
      obtain ⟨v, m, bytes, hv, hreached, hall, hoff, hrun⟩ :=
        ih hcalls (List.nodup_append.mp hnodup).1
      rw [hreached.sessions _ hsession]
      obtain ⟨reply, fs', m', bytes', hcallRun, hfile, hoff', hstored, hall', hids, hstep⟩ :=
        hreached.stored.call_refines hreached.file hall hreached.keys_drawn
          (hcall.congr hoff) hnodup
      rw [hcallRun]
      refine ⟨v, m', bytes', hv, ⟨hfile, hstored, ?_, hreached.sessions⟩, hall', ?_,
        StoreRun.step hrun hstep⟩
      · rw [drawnIds_append]
        exact hids
      · intro p hp
        show fs' p = fs₀ p
        rw [hoff' p hp, hoff p hp]

/-- The store refines the abstract one, its reads show the abstract map,
and a call about one id changes what is read of no other. -/
theorem store_refines_map {password : Bytes} {fs₀ : Fs} {st : VaultState} {calls : Calls β}
    (h : History platform path password fs₀ st calls)
    (hquiet : ∀ entry ∈ calls, entry.1.Quiet path fs₀) (hnodup : (drawnIds calls).Nodup) :
    ∃ m, StoreRun calls m
      ∧ (∀ session ∈ st.sessions, ∀ io : IoFaults, io.read = false →
          (list platform io session st.fs).1 = .ok (liveSummaries m)
          ∧ ∀ (id : ItemId) (f : DecodedItem → Res β),
            (withItem platform io session id f st.fs).1
              = match m.status id with
                | some (some item) => f item.view
                | _ => .error (.notFound (idHex id)))
      ∧ ∀ session ∈ st.sessions, ∀ call : StoreCall β, call.Quiet path fs₀ →
          (drawnIds calls ++ call.drawn).Nodup → ∀ io : IoFaults, io.read = false →
          (∀ id, call.target ≠ some id → ∀ f : DecodedItem → Res β,
            (withItem platform io session id f (call.run platform session st.fs).2).1
              = (withItem platform io session id f st.fs).1)
          ∧ ∀ id, call.target = some id → ∃ before after,
            (list platform io session st.fs).1 = .ok before
            ∧ (list platform io session (call.run platform session st.fs).2).1 = .ok after
            ∧ (after.filter fun summary => summary.id ≠ id)
              = before.filter fun summary => summary.id ≠ id := by
  obtain ⟨v, m, bytes, -, hreached, hall, hoff, hrun⟩ := h.refines hquiet hnodup
  refine ⟨m, hrun, ?_, ?_⟩
  · intro session hsession io hread
    rw [hreached.sessions session hsession]
    refine ⟨?_, fun id f => hreached.stored.withItem_eq hreached.file hall hread id f⟩
    have hfile : st.fs (v.session path).path = some bytes := hreached.file
    exact (hreached.stored.list_eq_ok hfile rfl hread).mpr ⟨hall, rfl⟩
  · intro session hsession call hcall hfresh io hread
    rw [hreached.sessions session hsession]
    obtain ⟨reply, fs', m', bytes', hcallRun, hfile, -, hstored, hall', -, hstep⟩ :=
      hreached.stored.call_refines hreached.file hall hreached.keys_drawn (hcall.congr hoff) hfresh
    rw [hcallRun]
    refine ⟨fun id hid f => ?_, fun id hid => ⟨liveSummaries m, liveSummaries m', ?_, ?_,
      hstep.summaries_eq hid⟩⟩
    · rw [hstored.withItem_eq hfile hall' hread id f,
        hreached.stored.withItem_eq hreached.file hall hread id f, hstep.status_eq hid]
    · have hbefore : st.fs (v.session path).path = some bytes := hreached.file
      exact (hreached.stored.list_eq_ok hbefore rfl hread).mpr ⟨hall, rfl⟩
    · have hafter : fs' (v.session path).path = some bytes' := hfile
      exact (hstored.list_eq_ok hafter rfl hread).mpr ⟨hall', rfl⟩

/-- The refinement of an `add` and a `list` on a new vault. -/
theorem store_refines_map_of_add_list :
    ∃ (st : VaultState) (calls : Calls Unit) (m : ItemMap),
      History Platform.transparent samplePath samplePassword noFiles st calls ∧ calls.length = 2
        ∧ StoreRun calls m := by
  obtain ⟨st, session, hhistory, hsession, -⟩ := @sample_unlocked Unit
  have hadd := History.called hhistory hsession (.mutate sampleEnv (.add sampleItem))
  have hlist := History.called hadd hsession (.list IoFaults.none)
  have hrefines := store_refines_map hlist (by
    intro entry hmem
    rw [List.nil_append, List.mem_append, List.mem_singleton, List.mem_singleton] at hmem
    rcases hmem with rfl | rfl
    · exact ⟨sampleEnv_persists fun _ _ => rfl, rfl, drawsWith_forAdd zeroId zeroId,
        sampleItem_withinLimits⟩
    · exact (rfl : IoFaults.none.read = false))
  obtain ⟨m, hrun, -⟩ := hrefines (List.nodup_singleton zeroId)
  exact ⟨_, _, m, hlist, rfl, hrun⟩

end MeissnerSeal
