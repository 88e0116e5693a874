/-
The calls of the item store on a file system: when a mutation commits,
what it leaves at the vault path, and what the reads return.

# Commit

The rename is the commit point. `Mutation.Commits` says, of the call's
inputs alone, that the call gets that far; a call that commits has
replaced the file by one that stores `Mutation.apply`, whatever it then
returns, and a call that does not has left the file as it was.
-/
import MeissnerSeal.Item.Determined

namespace MeissnerSeal

open ByteCodec ExceptRules

-- =========================================== read, plan, persist

section Mutate

variable {α : Type} {io : IoFaults} {path : Path} {plan : Bytes → Res (Plan α)} {fs : Fs}
  {bytes : Bytes}

/-- A file that is there is read, unless the read fails. -/
theorem readFile_of_some (hfs : fs path = some bytes) (fault : Bool) :
    readFile fault path fs = (if fault then .error .io else .ok bytes, fs) := by
  cases fault with
  | true => rfl
  | false => simp only [readFile, hfs, okOr_some, Bool.false_eq_true, if_false]

/-- A mutation ends where its read, its plan or its need to write ends. -/
theorem mutate_of_read_fault (hread : io.read = true) :
    mutate io path plan fs = (.error .io, fs) := by
  simp only [mutate, FsM.bind_apply, readFile, hread, if_true]

theorem mutate_of_plan_error {e : CoreError} (hfs : fs path = some bytes)
    (hread : io.read = false) (hplan : plan bytes = .error e) :
    mutate io path plan fs = (.error e, fs) := by
  simp only [mutate, FsM.bind_apply, readFile_of_some hfs, hread, Bool.false_eq_true, if_false,
    FsM.lift, hplan]

theorem mutate_of_noop {value : α} (hfs : fs path = some bytes) (hread : io.read = false)
    (hplan : plan bytes = .ok ⟨value, none⟩) : mutate io path plan fs = (.ok value, fs) := by
  simp only [mutate, FsM.bind_apply, readFile_of_some hfs, hread, Bool.false_eq_true, if_false,
    FsM.lift, hplan, FsM.pure_apply]

/-- A plan to write, persisted. -/
theorem mutate_of_write {value : α} {out : Bytes} {seed : U8Array 16}
    (hfs : fs path = some bytes) (hread : io.read = false)
    (hplan : plan bytes = .ok ⟨value, some (out, seed)⟩) :
    mutate io path plan fs
      = ((persistVaultMutationV2 io path out seed fs).1.map fun _ => value,
          (persistVaultMutationV2 io path out seed fs).2) := by
  simp only [mutate, FsM.bind_apply, readFile_of_some hfs, hread, Bool.false_eq_true, if_false,
    FsM.lift, hplan, FsM.pure_apply]
  rcases persistVaultMutationV2 io path out seed fs with ⟨r, fs'⟩
  cases r with
  | error e => rfl
  | ok u => rfl

/-- A write that reaches its rename. -/
theorem mutate_of_reachesRename {value : α} {out : Bytes} {seed : U8Array 16}
    (hfs : fs path = some bytes) (hread : io.read = false)
    (hplan : plan bytes = .ok ⟨value, some (out, seed)⟩)
    (hreach : ReachesRename io fs (uniqueTmpPath path seed)) :
    mutate io path plan fs
      = (if io.afterRename then .error .io else .ok value, fs.set path (some out)) := by
  rw [mutate_of_write hfs hread hplan, persistVaultMutationV2_of_reachesRename hreach]
  cases io.afterRename with
  | true => rfl
  | false => rfl

/-- A write that does not. -/
theorem mutate_of_not_reachesRename {value : α} {out : Bytes} {seed : U8Array 16}
    (hfs : fs path = some bytes) (hread : io.read = false)
    (hplan : plan bytes = .ok ⟨value, some (out, seed)⟩)
    (hreach : ¬ ReachesRename io fs (uniqueTmpPath path seed)) :
    ∃ fs', mutate io path plan fs = (.error .io, fs') ∧ fs' path = some bytes := by
  obtain ⟨fs', hpersist, hkeep⟩ := persistVaultMutationV2_of_not_reachesRename hreach
  refine ⟨fs', ?_, ?_⟩
  · rw [mutate_of_write hfs hread hplan, hpersist]
    rfl
  · rw [hkeep path (uniqueTmpPath_apart path seed), hfs]

/-- What becomes of a mutation: it fails and leaves the file; it has nothing
to write; or it gets to its rename, and the file is what it planned. -/
theorem mutate_cases (hfs : fs path = some bytes) :
    (∃ e fs', mutate io path plan fs = (.error e, fs') ∧ fs' path = some bytes)
      ∨ (∃ value, plan bytes = .ok ⟨value, none⟩ ∧ mutate io path plan fs = (.ok value, fs))
      ∨ ∃ value out seed, io.read = false ∧ plan bytes = .ok ⟨value, some (out, seed)⟩
        ∧ ReachesRename io fs (uniqueTmpPath path seed)
        ∧ mutate io path plan fs
          = (if io.afterRename then .error .io else .ok value, fs.set path (some out)) := by
  cases hread : io.read with
  | true => exact .inl ⟨.io, fs, mutate_of_read_fault hread, hfs⟩
  | false =>
      cases hplan : plan bytes with
      | error e => exact .inl ⟨e, fs, mutate_of_plan_error hfs hread hplan, hfs⟩
      | ok planned =>
          obtain ⟨value, write⟩ := planned
          cases write with
          | none => exact .inr (.inl ⟨value, rfl, mutate_of_noop hfs hread hplan⟩)
          | some write =>
              obtain ⟨out, seed⟩ := write
              by_cases hreach : ReachesRename io fs (uniqueTmpPath path seed)
              · exact .inr (.inr ⟨value, out, seed, rfl, rfl, hreach,
                  mutate_of_reachesRename hfs hread hplan hreach⟩)
              · obtain ⟨fs', hrun, hkeep⟩ := mutate_of_not_reachesRename hfs hread hplan hreach
                exact .inl ⟨.io, fs', hrun, hkeep⟩

end Mutate

-- ============================================================ mutations

/-- The environment lets a call that has something to write get as far as
its rename. -/
def Env.Persists (env : Env) (path : Path) (fs : Fs) : Prop :=
  env.io.read = false ∧ ∃ seed, env.draws.uniqueSeed = some seed
    ∧ ReachesRename env.io fs (uniqueTmpPath path seed)

/-- A mutating call of the store. -/
inductive Mutation where
  | add (item : PlainItem)
  | update (id : ItemId) (item : PlainItem)
  | delete (id : ItemId)

namespace Mutation

/-- The call; an `add` returns the new id. -/
def run (platform : Platform) (env : Env) (session : UnlockedVault) : Mutation →
    FsM (Option ItemId)
  | .add item => do
      let id ← MeissnerSeal.add platform env session item
      return some id
  | .update id item => do
      MeissnerSeal.update platform env session id item
      return none
  | .delete id => do
      MeissnerSeal.delete platform env session id
      return none

/-- The call between its file read and its persist. -/
def plan (platform : Platform) (draws : Draws) (session : UnlockedVault) : Mutation → Bytes →
    Res (Plan (Option ItemId))
  | .add item, bytes => do
      let planned ← planAdd platform draws session item bytes
      return ⟨some planned.value, planned.write⟩
  | .update id item, bytes => do
      let planned ← planUpdate platform draws session id item bytes
      return ⟨none, planned.write⟩
  | .delete id, bytes => do
      let planned ← planDelete platform draws session id bytes
      return ⟨none, planned.write⟩

/-- What the call makes of the stored map. -/
def apply (draws : Draws) (m : ItemMap) : Mutation → ItemMap
  | .add item =>
      match draws.recordId with
      | some id => m.insert id item
      | none => m
  | .update id item => m.assign id (some item)
  | .delete id => m.assign id none

/-- What a successful call that writes returns. -/
def reply (draws : Draws) : Mutation → Option ItemId
  | .add _ => draws.recordId
  | .update _ _ => none
  | .delete _ => none

/-- The id an `add` draws has no record yet. -/
def Fresh (draws : Draws) (m : ItemMap) : Mutation → Prop
  | .add _ => ∀ id, draws.recordId = some id → id ∉ m.keys
  | .update _ _ => True
  | .delete _ => True

/-- The random values the call needs are drawn. -/
def Drawn (draws : Draws) : Mutation → Prop
  | .add _ => draws.ForAdd
  | .update _ _ => draws.ForItem
  | .delete _ => draws.ForFrame

/-- The call has something to write, and can. -/
def Ready (draws : Draws) (m : ItemMap) : Mutation → Prop
  | .add item => draws.ForAdd ∧ storedFrameLen (some item) < 2 ^ 32 ∧ m.size < maxRecords
  | .update id item => draws.ForItem ∧ storedFrameLen (some item) < 2 ^ 32
      ∧ ∃ old, m.status id = some (some old)
  | .delete id => draws.ForFrame ∧ ∃ old, m.status id = some (some old)

/-- The call gets as far as its rename. -/
def Commits (env : Env) (path : Path) (fs : Fs) (m : ItemMap) (call : Mutation) : Prop :=
  call.Ready env.draws m ∧ env.Persists path fs

end Mutation

/-- The keys a call leaves are old ones, or the one an `add` drew. -/
theorem Mutation.mem_keys_apply {draws : Draws} {m : ItemMap} {id : ItemId} (call : Mutation)
    (h : id ∈ (call.apply draws m).keys) :
    id ∈ m.keys ∨ ∃ item, call = .add item ∧ draws.recordId = some id := by
  cases call with
  | add item =>
      simp only [Mutation.apply] at h
      cases hdraw : draws.recordId with
      | none =>
          rw [hdraw] at h
          exact .inl h
      | some j =>
          rw [hdraw] at h
          by_cases hj : j ∉ m.keys
          · simp only [TombstoneMap.insert_of_not_mem item hj, TombstoneMap.keys_push,
              List.mem_append, List.mem_singleton] at h
            rcases h with hmem | rfl
            · exact .inl hmem
            · exact .inr ⟨item, rfl, rfl⟩
          · simp only [TombstoneMap.insert, dif_neg hj] at h
            exact .inl h
  | update j item =>
      rw [Mutation.apply, TombstoneMap.keys_assign] at h
      exact .inl h
  | delete j =>
      rw [Mutation.apply, TombstoneMap.keys_assign] at h
      exact .inl h

/-- Of the files a write depends on the temporary name alone. -/
theorem Env.persists_set {env : Env} {path : Path} {fs : Fs} (contents : Option Bytes) :
    env.Persists path (fs.set path contents) ↔ env.Persists path fs := by
  simp only [Env.Persists, reachesRename_set]

/-- `mutate` commutes with a map of the planned value. -/
theorem mutate_map {α β : Type} (f : α → β) (io : IoFaults) (path : Path)
    (plan : Bytes → Res (Plan α)) (fs : Fs) :
    mutate io path (fun bytes => do
        let planned ← plan bytes
        return ⟨f planned.value, planned.write⟩) fs
      = (do
          let value ← mutate io path plan
          return f value : FsM β) fs := by
  simp only [mutate, FsM.bind_apply, FsM.lift]
  rcases readFile io.read path fs with ⟨r, fs₁⟩
  cases r with
  | error e => rfl
  | ok bytes =>
      simp only
      cases plan bytes with
      | error e => rfl
      | ok planned =>
          obtain ⟨value, write⟩ := planned
          cases write with
          | none => rfl
          | some w =>
              obtain ⟨out, seed⟩ := w
              simp only [ok_bind, pure_eq_ok, FsM.bind_apply]
              rcases persistVaultMutationV2 io path out seed fs₁ with ⟨r₂, fs₂⟩
              cases r₂ with
              | error e => rfl
              | ok u => rfl

variable {platform : Platform} {v : VaultIdentity platform} {m : ItemMap} {bytes : Bytes}
  {session : UnlockedVault} {env : Env} {fs : Fs} {call : Mutation}

/-- The three mutations are one program, at their plans. -/
theorem Mutation.run_eq_mutate (platform : Platform) (env : Env) (session : UnlockedVault)
    (call : Mutation) (fs : Fs) :
    call.run platform env session fs
      = mutate env.io session.path (call.plan platform env.draws session) fs := by
  cases call with
  | add item =>
      exact (mutate_map some env.io session.path (planAdd platform env.draws session item) fs).symm
  | update id item =>
      exact (mutate_map (fun _ => (none : Option ItemId)) env.io session.path
        (planUpdate platform env.draws session id item) fs).symm
  | delete id =>
      exact (mutate_map (fun _ => (none : Option ItemId)) env.io session.path
        (planDelete platform env.draws session id) fs).symm

/-- A call that is ready plans to write the new map. -/
theorem Stored.plan_of_ready {draws : Draws} (h : Stored v m bytes)
    (hkeys : session.keys = v.keys) (hready : call.Ready draws m) :
    ∃ seed out, draws.uniqueSeed = some seed
      ∧ call.plan platform draws session bytes = .ok ⟨call.reply draws, some (out, seed)⟩
      ∧ (call.Fresh draws m → Stored v (call.apply draws m) out) := by
  cases call with
  | add item =>
      obtain ⟨hdraws, hlen, hsize⟩ := hready
      obtain ⟨planned, hplan⟩ := h.exists_planAdd hkeys hdraws hlen hsize
      obtain ⟨id, seed, out, rfl, hid, hseed, -, -, -, hstored⟩ := h.of_planAdd hkeys hplan
      refine ⟨seed, out, hseed, ?_, ?_⟩
      · simp only [Mutation.plan, hplan, ok_bind, pure_eq_ok, Mutation.reply, hid]
      · intro hfresh
        simp only [Mutation.apply, hid, TombstoneMap.insert_of_not_mem item (hfresh id hid)]
        exact hstored (hfresh id hid)
  | update id item =>
      obtain ⟨hdraws, hlen, old, hlive⟩ := hready
      obtain ⟨planned, hplan⟩ := h.exists_planUpdate hkeys hdraws hlen hlive
      obtain ⟨seed, out, rfl, hseed, -, -, -, hstored⟩ := h.of_planUpdate hkeys hplan
      refine ⟨seed, out, hseed, ?_, fun _ => hstored⟩
      simp only [Mutation.plan, hplan, ok_bind, pure_eq_ok, Mutation.reply]
  | delete id =>
      obtain ⟨hdraws, old, hlive⟩ := hready
      obtain ⟨planned, hplan⟩ := h.exists_planDelete hkeys hdraws hlive
      obtain ⟨seed, out, rfl, hseed, -, hstored⟩ := h.of_planDelete hkeys hlive hplan
      refine ⟨seed, out, hseed, ?_, fun _ => hstored⟩
      simp only [Mutation.plan, hplan, ok_bind, pure_eq_ok, Mutation.reply]

/-- A call that is not ready fails to plan, or is a delete of a deleted id. -/
theorem Stored.plan_of_not_ready {draws : Draws} (h : Stored v m bytes)
    (hkeys : session.keys = v.keys) (hready : ¬ call.Ready draws m) :
    (∃ e, call.plan platform draws session bytes = .error e)
      ∨ (call.plan platform draws session bytes = .ok ⟨none, none⟩
        ∧ ∃ id, call = .delete id ∧ m.status id = some none) := by
  cases call with
  -- a plan that succeeds proves its call ready
  | add item =>
      cases hplan : planAdd platform draws session item bytes with
      | error e => exact .inl ⟨e, by simp only [Mutation.plan, hplan, error_bind]⟩
      | ok planned =>
          obtain ⟨id, seed, out, -, -, -, hsize, hlen, hdraws, -⟩ := h.of_planAdd hkeys hplan
          exact absurd ⟨hdraws, hlen, hsize⟩ hready
  | update id item =>
      cases hplan : planUpdate platform draws session id item bytes with
      | error e => exact .inl ⟨e, by simp only [Mutation.plan, hplan, error_bind]⟩
      | ok planned =>
          obtain ⟨seed, out, -, -, hlive, hlen, hdraws, -⟩ := h.of_planUpdate hkeys hplan
          exact absurd ⟨hdraws, hlen, hlive⟩ hready
  | delete id =>
      cases hstatus : m.status id with
      | none =>
          left
          refine ⟨.notFound (idHex id), ?_⟩
          simp only [Mutation.plan, h.planDelete_of_absent hkeys hstatus, error_bind]
      | some content =>
          cases content with
          -- deleted already: nothing to write
          | none =>
              right
              refine ⟨?_, id, rfl, hstatus⟩
              simp only [Mutation.plan, h.planDelete_of_dead hkeys hstatus, ok_bind, pure_eq_ok]
          | some old =>
              left
              cases hplan : planDelete platform draws session id bytes with
              | error e => exact ⟨e, by simp only [Mutation.plan, hplan, error_bind]⟩
              | ok planned =>
                  obtain ⟨seed, out, -, -, hdraws, -⟩ := h.of_planDelete hkeys hstatus hplan
                  exact absurd ⟨hdraws, old, hstatus⟩ hready

/-- A call that commits has replaced the file by one that stores the new
map, whatever it returns. -/
theorem Stored.run_of_commits (h : Stored v m bytes) (hfs : fs session.path = some bytes)
    (hkeys : session.keys = v.keys) (hfresh : call.Fresh env.draws m)
    (hcommits : call.Commits env session.path fs m) :
    ∃ out, call.run platform env session fs
        = (if env.io.afterRename then .error .io else .ok (call.reply env.draws),
            fs.set session.path (some out))
      ∧ Stored v (call.apply env.draws m) out := by
  obtain ⟨hready, hread, seed, hseed, hreach⟩ := hcommits
  obtain ⟨seed', out, hseed', hplan, hstored⟩ := h.plan_of_ready hkeys hready
  rw [hseed, Option.some.injEq] at hseed'
  subst hseed'
  refine ⟨out, ?_, hstored hfresh⟩
  rw [Mutation.run_eq_mutate, mutate_of_reachesRename hfs hread hplan hreach]

/-- A call that does not commit has left the file as it was; it can only
have succeeded as a delete of a deleted id. -/
theorem Stored.run_of_not_commits (h : Stored v m bytes) (hfs : fs session.path = some bytes)
    (hkeys : session.keys = v.keys) (hcommits : ¬ call.Commits env session.path fs m) :
    ∃ fs', fs' session.path = some bytes
      ∧ ((∃ e, call.run platform env session fs = (.error e, fs'))
        ∨ (call.run platform env session fs = (.ok none, fs') ∧ fs' = fs
          ∧ ∃ id, call = .delete id ∧ m.status id = some none)) := by
  rw [Mutation.run_eq_mutate]
  cases hread : env.io.read with
  | true => exact ⟨fs, hfs, .inl ⟨.io, mutate_of_read_fault hread⟩⟩
  | false =>
      by_cases hready : call.Ready env.draws m
      · obtain ⟨seed, out, hseed, hplan, -⟩ := h.plan_of_ready hkeys hready
        have hreach : ¬ ReachesRename env.io fs (uniqueTmpPath session.path seed) :=
          fun hreach => hcommits ⟨hready, hread, seed, hseed, hreach⟩
        obtain ⟨fs', hrun, hkeep⟩ := mutate_of_not_reachesRename hfs hread hplan hreach
        exact ⟨fs', hkeep, .inl ⟨.io, hrun⟩⟩
      · rcases h.plan_of_not_ready hkeys hready with ⟨e, hplan⟩ | ⟨hplan, hdead⟩
        · exact ⟨fs, hfs, .inl ⟨e, mutate_of_plan_error hfs hread hplan⟩⟩
        · exact ⟨fs, hfs, .inr ⟨mutate_of_noop hfs hread hplan, rfl, hdead⟩⟩

/-- `add`, when it commits. -/
theorem Stored.add_of_commits {item : PlainItem} {id : ItemId} (h : Stored v m bytes)
    (hfs : fs session.path = some bytes) (hkeys : session.keys = v.keys)
    (hid : env.draws.recordId = some id) (hfresh : id ∉ m.keys)
    (hcommits : (Mutation.add item).Commits env session.path fs m) :
    ∃ out, add platform env session item fs
        = (if env.io.afterRename then .error .io else .ok id, fs.set session.path (some out))
      ∧ Stored v (m.push id item hfresh) out := by
  have hfreshDraw : (Mutation.add item).Fresh env.draws m := by
    intro j hj
    rw [hid, Option.some.injEq] at hj
    rw [← hj]
    exact hfresh
  obtain ⟨out, hrun, hstored⟩ := h.run_of_commits hfs hkeys hfreshDraw hcommits
  refine ⟨out, ?_, ?_⟩
  · simp only [Mutation.run, Mutation.reply, hid, FsM.bind_apply] at hrun
    rcases hadd : add platform env session item fs with ⟨r, fs'⟩
    rw [hadd] at hrun
    cases hafter : env.io.afterRename with
    | true =>
        cases r with
        | error e =>
            simp only [hafter, if_true, Prod.mk.injEq, Except.error.injEq] at hrun ⊢
            exact hrun
        | ok j => simp [hafter, FsM.pure_apply] at hrun
    | false =>
        cases r with
        | error e => simp [hafter] at hrun
        | ok j =>
            simp only [hafter, FsM.pure_apply, Bool.false_eq_true, if_false, Prod.mk.injEq,
              Except.ok.injEq, Option.some.injEq] at hrun ⊢
            exact hrun
  · simp only [Mutation.apply, hid, TombstoneMap.insert_of_not_mem item hfresh] at hstored
    exact hstored

/-- `add`, when it does not. -/
theorem Stored.add_of_not_commits {item : PlainItem} (h : Stored v m bytes)
    (hfs : fs session.path = some bytes) (hkeys : session.keys = v.keys)
    (hcommits : ¬ (Mutation.add item).Commits env session.path fs m) :
    ∃ e fs', add platform env session item fs = (.error e, fs')
      ∧ fs' session.path = some bytes := by
  obtain ⟨fs', hkeep, hrun⟩ := h.run_of_not_commits hfs hkeys hcommits
  rcases hadd : add platform env session item fs with ⟨r, fs''⟩
  simp only [Mutation.run, FsM.bind_apply, hadd] at hrun
  rcases hrun with ⟨e, hrun⟩ | ⟨-, -, id, hcall, -⟩
  · cases r with
    | error e' =>
        simp only [Prod.mk.injEq] at hrun
        exact ⟨e', fs'', rfl, hrun.2 ▸ hkeep⟩
    | ok j => simp [FsM.pure_apply] at hrun
  · cases hcall

/-- `delete` of a live id, when it commits. -/
theorem Stored.delete_of_commits {id : ItemId} (h : Stored v m bytes)
    (hfs : fs session.path = some bytes) (hkeys : session.keys = v.keys)
    (hcommits : (Mutation.delete id).Commits env session.path fs m) :
    ∃ out, delete platform env session id fs
        = (if env.io.afterRename then .error .io else .ok (), fs.set session.path (some out))
      ∧ Stored v (m.assign id none) out := by
  have hfresh : (Mutation.delete id).Fresh env.draws m := trivial
  obtain ⟨out, hrun, hstored⟩ := h.run_of_commits hfs hkeys hfresh hcommits
  refine ⟨out, ?_, hstored⟩
  simp only [Mutation.run, Mutation.reply, FsM.bind_apply] at hrun
  rcases hdelete : delete platform env session id fs with ⟨r, fs'⟩
  rw [hdelete] at hrun
  cases hafter : env.io.afterRename with
  | true =>
      cases r with
      | error e =>
          simp only [hafter, if_true, Prod.mk.injEq, Except.error.injEq] at hrun ⊢
          exact hrun
      | ok u => simp [hafter, FsM.pure_apply] at hrun
  | false =>
      cases r with
      | error e => simp [hafter] at hrun
      | ok u =>
          simp only [hafter, FsM.pure_apply, Bool.false_eq_true, if_false, Prod.mk.injEq] at hrun ⊢
          exact ⟨trivial, hrun.2⟩

/-- `delete` of a live id, when it does not. -/
theorem Stored.delete_of_not_commits {id : ItemId} {old : PlainItem} (h : Stored v m bytes)
    (hfs : fs session.path = some bytes) (hkeys : session.keys = v.keys)
    (hlive : m.status id = some (some old))
    (hcommits : ¬ (Mutation.delete id).Commits env session.path fs m) :
    ∃ e fs', delete platform env session id fs = (.error e, fs')
      ∧ fs' session.path = some bytes := by
  obtain ⟨fs', hkeep, hrun⟩ := h.run_of_not_commits hfs hkeys hcommits
  rcases hdelete : delete platform env session id fs with ⟨r, fs''⟩
  simp only [Mutation.run, FsM.bind_apply, hdelete] at hrun
  rcases hrun with ⟨e, hrun⟩ | ⟨-, -, j, hcall, hdead⟩
  · cases r with
    | error e' =>
        simp only [Prod.mk.injEq] at hrun
        exact ⟨e', fs'', rfl, hrun.2 ▸ hkeep⟩
    | ok u => simp [FsM.pure_apply] at hrun
  · cases hcall
    rw [hlive] at hdead
    cases hdead

/-- A mutation that succeeds, other than a delete of a deleted id,
has committed. -/
theorem Stored.of_run_ok {env : Env} {call : Mutation} {r : Option ItemId} {fs' : Fs}
    (h : Stored v m bytes) (hfs : fs session.path = some bytes) (hkeys : session.keys = v.keys)
    (hfresh : call.Fresh env.draws m) (hcall : ∀ id, call ≠ .delete id)
    (hrun : call.run platform env session fs = (.ok r, fs')) :
    call.Ready env.draws m ∧ r = call.reply env.draws
      ∧ ∃ out, fs' session.path = some out ∧ Stored v (call.apply env.draws m) out := by
  by_cases hcommits : call.Commits env session.path fs m
  · obtain ⟨out, hrun', hstored⟩ := h.run_of_commits hfs hkeys hfresh hcommits
    rw [hrun] at hrun'
    cases hafter : env.io.afterRename with
    | true => simp [hafter] at hrun'
    | false =>
        simp only [hafter, Bool.false_eq_true, if_false, Prod.mk.injEq, Except.ok.injEq] at hrun'
        obtain ⟨rfl, rfl⟩ := hrun'
        exact ⟨hcommits.1, rfl, out, Fs.set_self .., hstored⟩
  · obtain ⟨fs'', -, hnot⟩ := h.run_of_not_commits hfs hkeys hcommits
    rcases hnot with ⟨e, hrun'⟩ | ⟨-, -, id, hdelete, -⟩
    · rw [hrun] at hrun'
      cases hrun'
    · exact absurd hdelete (hcall id)

/-- A mutation that succeeds leaves a file that stores what it
makes of the map. -/
theorem Stored.after_run_ok {r : Option ItemId} {fs' : Fs}
    (h : Stored v m bytes) (hfs : fs session.path = some bytes) (hkeys : session.keys = v.keys)
    (hfresh : call.Fresh env.draws m) (hrun : call.run platform env session fs = (.ok r, fs')) :
    ∃ out, fs' session.path = some out ∧ Stored v (call.apply env.draws m) out := by
  by_cases hcommits : call.Commits env session.path fs m
  · obtain ⟨out, hrun', hstored⟩ := h.run_of_commits hfs hkeys hfresh hcommits
    rw [hrun, Prod.mk.injEq] at hrun'
    exact ⟨out, hrun'.2 ▸ Fs.set_self .., hstored⟩
  · obtain ⟨fs'', hkeep, hnot⟩ := h.run_of_not_commits hfs hkeys hcommits
    rcases hnot with ⟨e, hrun'⟩ | ⟨hrun', -, id, rfl, hdead⟩
    · rw [hrun] at hrun'
      cases hrun'
    · rw [hrun, Prod.mk.injEq] at hrun'
      refine ⟨bytes, hrun'.2 ▸ hkeep, ?_⟩
      rw [Mutation.apply, TombstoneMap.assign_of_status hdead]
      exact h

-- ================================================================= reads

/-- Loading changes no file. -/
theorem loadVault_fs (io : IoFaults) : (loadVault platform io session fs).2 = fs := by
  simp only [loadVault, FsM.bind_apply, readFile]
  cases io.read with
  | true => rfl
  | false =>
      cases fs session.path with
      | none => rfl
      | some bytes => rfl

/-- No read changes a file. -/
theorem list_fs (io : IoFaults) : (list platform io session fs).2 = fs := by
  have hload : (loadVault platform io session fs).2 = fs := loadVault_fs io
  simp only [list, FsM.bind_apply]
  rcases hrun : loadVault platform io session fs with ⟨r, fs'⟩
  rw [hrun] at hload
  cases r with
  | error e => exact hload
  | ok loaded => exact hload

/-- Nor does looking at an item. -/
theorem withItem_fs {α : Type} (io : IoFaults) (id : ItemId) (f : DecodedItem → Res α) :
    (withItem platform io session id f fs).2 = fs := by
  have hload : (loadVault platform io session fs).2 = fs := loadVault_fs io
  simp only [withItem, FsM.bind_apply, FsM.lift]
  rcases hrun : loadVault platform io session fs with ⟨r, fs'⟩
  rw [hrun] at hload
  cases r with
  | error e => exact hload
  | ok loaded =>
      simp only
      cases viewItem platform session loaded id with
      | error e => exact hload
      | ok view => exact hload

/-- A stored map loads, with entries that store its items. -/
theorem Stored.loadVault_eq (h : Stored v m bytes) (hfs : fs session.path = some bytes)
    (hkeys : session.keys = v.keys) (io : IoFaults) :
    ∃ records loaded, LoadedFrom v records bytes loaded
      ∧ List.Forall₂ (EntryStores v loaded.bytes) loaded.entries m.entries
      ∧ loadVault platform io session fs = (if io.read then .error .io else .ok loaded, fs) := by
  obtain ⟨records, loaded, hload, hloaded, -, hentries⟩ := h.load hkeys
  refine ⟨records, loaded, hloaded, hentries, ?_⟩
  simp only [loadVault, FsM.bind_apply, readFile_of_some hfs, FsM.lift]
  cases io.read with
  | true => rfl
  | false => simp only [Bool.false_eq_true, if_false, hload]

/-- `list` returns the live items, in order, exactly when all of them
are within the limits. -/
theorem Stored.list_eq_ok {io : IoFaults} {summaries : List ItemSummary} (h : Stored v m bytes)
    (hfs : fs session.path = some bytes) (hkeys : session.keys = v.keys)
    (hread : io.read = false) :
    (list platform io session fs).1 = .ok summaries
      ↔ AllWithinLimits m ∧ summaries = liveSummaries m := by
  obtain ⟨records, loaded, hloaded, hentries, hload⟩ := h.loadVault_eq hfs hkeys io
  rw [← hloaded.summarize_eq_ok hkeys hentries]
  simp only [list, FsM.bind_apply, hload, hread, Bool.false_eq_true, if_false, FsM.lift]

/-- `with_item` hands its closure the live item. -/
theorem Stored.withItem_of_live {α : Type} {io : IoFaults} {id : ItemId} {item : PlainItem}
    (f : DecodedItem → Res α) (h : Stored v m bytes) (hfs : fs session.path = some bytes)
    (hkeys : session.keys = v.keys) (hread : io.read = false)
    (hlive : m.status id = some (some item)) (hlimits : item.WithinLimits) :
    withItem platform io session id f fs = (f item.view, fs) := by
  obtain ⟨records, loaded, hloaded, hentries, hload⟩ := h.loadVault_eq hfs hkeys io
  have hview : viewItem platform session loaded id = .ok item.view :=
    (hloaded.viewItem_eq_ok hkeys hentries).mpr ⟨item, hlive, hlimits, rfl⟩
  simp only [withItem, FsM.bind_apply, hload, hread, Bool.false_eq_true, if_false, FsM.lift, hview]

/-- `with_item` on an id that is not live. -/
theorem Stored.withItem_of_not_live {α : Type} {io : IoFaults} {id : ItemId}
    (f : DecodedItem → Res α) (h : Stored v m bytes) (hfs : fs session.path = some bytes)
    (hkeys : session.keys = v.keys) (hread : io.read = false)
    (hlive : ∀ a, m.status id ≠ some (some a)) :
    withItem platform io session id f fs = (.error (.notFound (idHex id)), fs) := by
  obtain ⟨records, loaded, hloaded, hentries, hload⟩ := h.loadVault_eq hfs hkeys io
  have hview : viewItem platform session loaded id = .error (.notFound (idHex id)) :=
    LoadedFrom.viewItem_of_not_live hentries hlive
  simp only [withItem, FsM.bind_apply, hload, hread, Bool.false_eq_true, if_false, FsM.lift, hview]

end MeissnerSeal
