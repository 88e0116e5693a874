/-
What a crash leaves of a vault under any sequence of mutations.

# Operations

An operation is a mutation or an import; an import is a script of
mutations, each chosen on what the ones before returned
(`importBundle_eq_script`). A run of operations acts on the disk.

# What is promised

The ledger of a run holds, beside the disk, the contents a crash may
leave at the vault path: those of the mutations since the last one that
returned `Ok`, that one's included. A mutation that returns `Ok` without
a write, a `delete` of a deleted item, vouches for the file it has found.

# Where the promise fails

That file may be there only in memory: a `delete` whose directory sync
failed has left its tombstone under the path, and the next one returns
`Ok` on the sight of it (`delete_acknowledged_and_lost`). In a run with
no such `delete` the promise holds at every point
(`mutations_crashSafe`).
-/
import MeissnerSeal.Export.AllOrNothing
import MeissnerSeal.Vault.OnDisk

namespace MeissnerSeal

open ByteCodec ExceptRules CrashM

-- ============================================================== scripts

/-- Mutations, each chosen on the replies of those before. -/
inductive Script (α : Type) where
  | done (r : Res α)
  | call (env : Env) (mutation : Mutation) (next : Res (Option ItemId) → Script α)

namespace Script

variable {α β : Type}

def andThen : Script α → (Res α → Script β) → Script β
  | .done r, f => f r
  | .call env mutation next, f => .call env mutation fun r => (next r).andThen f

/-- The script on the files a process sees. -/
def run (platform : Platform) (session : UnlockedVault) : Script α → FsM α
  | .done r => FsM.lift r
  | .call env mutation next => fun fs =>
      let (r, fs) := mutation.run platform env session fs
      (next r).run platform session fs

theorem run_andThen (platform : Platform) (session : UnlockedVault) (script : Script α)
    (f : Res α → Script β) (fs : Fs) :
    (script.andThen f).run platform session fs
      = (f (script.run platform session fs).1).run platform session
          (script.run platform session fs).2 := by
  induction script generalizing fs with
  | done r => rfl
  | call env mutation next ih => exact ih _ _

end Script

/-- `rollback`, as a script. -/
def rollbackScript (env : ImportEnv) : Nat → List ItemId → Script Bool
  | _, [] => .done (.ok true)
  | i, id :: ids => .call (env.deletes i) (.delete id) fun
      | .ok _ => rollbackScript env (i + 1) ids
      | .error .panic => .done (.error .panic)
      | .error _ => .done (.ok false)

/-- The item loop of `import`, as a script. -/
def importScript (env : ImportEnv) : List ItemId → List PlainItem → Script (List ItemId)
  | importedIds, [] => .done (.ok importedIds)
  | importedIds, item :: items => .call (env.adds importedIds.length) (.add item) fun
      | .ok id => importScript env (importedIds ++ id.toList) items
      | .error .panic => .done (.error .panic)
      | .error _ => (rollbackScript env 0 importedIds).andThen fun
          | .ok true => .done (.error (.invalidState "import add failed; rollback succeeded"))
          | .ok false => .done (.error .partialImport)
          | .error e => .done (.error e)

/-- A call of the store: a mutation, or an import. -/
inductive Operation where
  | mutation (session : UnlockedVault) (env : Env) (call : Mutation)
  | importBundle (session : UnlockedVault) (env : ImportEnv) (bundle passphrase : Bytes)

namespace Operation

def session : Operation → UnlockedVault
  | .mutation session _ _ => session
  | .importBundle session _ _ _ => session

/-- The mutations the operation makes; it returns the ids of
the items added. -/
def script (platform : Platform) : Operation → Script (List ItemId)
  | .mutation _ env call => .call env call fun r => .done (r.map Option.toList)
  | .importBundle _ env bundle passphrase =>
      match authenticate platform bundle passphrase with
      | .error e => .done (.error e)
      | .ok items => importScript env [] items

end Operation

section Scripts

variable (platform : Platform) (session : UnlockedVault) (env : ImportEnv)

theorem rollback_eq_script (i : Nat) (ids : List ItemId) (fs : Fs) :
    rollback platform env session i ids fs
      = (rollbackScript env i ids).run platform session fs := by
  induction ids generalizing i fs with
  | nil => rfl
  | cons id ids ih =>
      simp only [rollback, rollbackScript, Script.run, Mutation.run, FsM.bind_apply]
      rcases delete platform (env.deletes i) session id fs with ⟨r, fs'⟩
      cases r with
      | ok u => exact ih _ _
      | error e =>
          cases e with
          | panic => rfl
          | _ => rfl

theorem importLoop_eq_script (importedIds : List ItemId) (items : List PlainItem) (fs : Fs) :
    importLoop platform env session importedIds items fs
      = (importScript env importedIds items).run platform session fs := by
  induction items generalizing importedIds fs with
  | nil => rfl
  | cons item items ih =>
      simp only [importLoop, importScript, Script.run, Mutation.run, FsM.bind_apply]
      rcases add platform (env.adds importedIds.length) session item fs with ⟨r, fs'⟩
      cases r with
      | ok id => exact ih _ _
      | error e =>
          cases e with
          | panic => rfl
          | _ =>
              dsimp only
              rw [Script.run_andThen, ← rollback_eq_script]
              rcases rollback platform env session 0 importedIds fs' with ⟨r, fs''⟩
              cases r with
              | error e => rfl
              | ok done =>
                  cases done with
                  | true => rfl
                  | false => rfl

/-- An import is its script. -/
theorem importBundle_eq_script (bundle passphrase : Bytes) (fs : Fs) :
    importBundle platform env session bundle passphrase fs
      = ((Operation.importBundle session env bundle passphrase).script platform).run platform
          session fs := by
  simp only [importBundle, FsM.bind_apply, FsM.lift, Operation.script]
  cases authenticate platform bundle passphrase with
  | error e => rfl
  | ok items => exact importLoop_eq_script platform session env [] items fs

end Scripts

-- =========================================================== the ledger

/-- The disk, and the contents its vault file may have after a crash: the
bytes of the last mutation that returned `Ok` (at first the vault's own)
and those of the mutations since. -/
structure Ledger where
  disk : VaultDisk
  since : List Bytes

section Runs

variable (platform : Platform)

/-- The bytes a call persists, if it gets that far. -/
def Mutation.staged (env : Env) (session : UnlockedVault) (call : Mutation) (d : VaultDisk) :
    Option Bytes :=
  if env.io.read then none
  else (d.files session.path).bind fun bytes =>
    match call.plan platform env.draws session bytes with
    | .ok planned => planned.write.map Prod.fst
    | .error _ => none

/-- The ledger when a call has returned: an `Ok` leaves the file under the
path as the only content. -/
def Ledger.close (path : Path) (since : List Bytes) (r : Res (Option ItemId)) (disk : VaultDisk) :
    Ledger where
  disk := disk
  since := match r with
    | .ok _ => (disk.files path).toList
    | .error _ => since

/-- A call, entered in the ledger with its bytes before it starts. -/
def Ledger.call (session : UnlockedVault) (env : Env) (call : Mutation) :
    CrashM Ledger CoreError (Option ItemId) := fun l =>
  let ran := OnDisk.run platform env session call l.disk
  let since := l.since ++ (call.staged platform env session l.disk).toList
  let last := Ledger.close session.path since ran.result ran.state
  ⟨ran.result, last, ran.passed.map (fun disk => ⟨disk, since⟩) ++ [last]⟩

/-- The script, entered in the ledger. -/
def Script.onLedger {α : Type} (session : UnlockedVault) : Script α → CrashM Ledger CoreError α
  | .done r => CrashM.lift r
  | .call env mutation next =>
      (Ledger.call platform session env mutation).andThen fun r => (next r).onLedger session

/-- Operations in a row, whatever each returns. -/
def runOperations : List Operation → CrashM Ledger CoreError Unit
  | [] => pure ()
  | op :: ops => ((op.script platform).onLedger platform op.session).andThen fun _ =>
      runOperations ops

/-- At every point of the run, whatever a crash keeps: the file under the
path is there, and is the whole of what the last mutation that returned
`Ok` or a later one has written. -/
def CrashSafe (path : Path) (ops : List Operation) (l : Ledger) : Prop :=
  ∀ t ∈ l :: (runOperations platform ops l).passed, ∀ files, t.disk.Crash files →
    ∃ b ∈ t.since, files path = some b

-- ======================================================= the condition

/-- The call is a `delete` that finds its item deleted already. -/
def Mutation.FindsTombstone (env : Env) (session : UnlockedVault) (call : Mutation)
    (files : Fs) : Prop :=
  ∃ id bytes loaded, call = .delete id ∧ env.io.read = false ∧ files session.path = some bytes
    ∧ loadVaultBytes platform session bytes = .ok loaded ∧ liveItemPosition loaded id = none
    ∧ (loaded.entries.any fun entry =>
        entry.recordId = id ∧ entry.recordKind = recordKindTombstone) = true

/-- A call that finds its item deleted finds it so on the medium. -/
def Ledger.Sees (session : UnlockedVault) (env : Env) (call : Mutation) (l : Ledger) : Prop :=
  call.FindsTombstone platform env session l.disk.files → l.disk.Settled session.path

/-- Every call of the script does. -/
def Script.Sees {α : Type} (session : UnlockedVault) : Script α → Ledger → Prop
  | .done _, _ => True
  | .call env mutation next, l => l.Sees platform session env mutation
      ∧ (next (Ledger.call platform session env mutation l).result).Sees session
          (Ledger.call platform session env mutation l).state

/-- Every call of the run does: no `delete` finds its item deleted by a
rename that is not synced yet. -/
def RunSees : List Operation → Ledger → Prop
  | [], _ => True
  | op :: ops, l => (op.script platform).Sees platform op.session l
      ∧ RunSees ops ((op.script platform).onLedger platform op.session l).state

end Runs

variable {platform : Platform} {path : Path} {session : UnlockedVault} {env : Env}
  {call : Mutation} {bytes : Bytes} {l : Ledger} {d : VaultDisk}

theorem Mutation.findsTombstone_of_plan {value : Option ItemId} (hread : env.io.read = false)
    (hfile : d.files session.path = some bytes)
    (hplan : call.plan platform env.draws session bytes = .ok ⟨value, none⟩) :
    call.FindsTombstone platform env session d.files := by
  obtain ⟨id, loaded, rfl, hload, hposition, hany⟩ := Mutation.of_plan_none hplan
  exact ⟨id, bytes, loaded, rfl, hread, hfile, hload, hposition, hany⟩

-- ========================================================== every point

/-- The ledger's promise: whatever a crash keeps, the path has one of the
contents in it. -/
def Ledger.Safe (path : Path) (l : Ledger) : Prop := l.disk.Keeps path (· ∈ l.since)

theorem Ledger.Safe.of_crash (h : l.Safe path) {files : Fs} (hcrash : l.disk.Crash files) :
    ∃ b ∈ l.since, files path = some b :=
  Disk.Keeps.of_crash h hcrash

/-- What a call does on the disk, with `since` for the contents allowed
while it runs. -/
theorem OnDisk.run_meets {good : Bytes → Prop} (h : d.Keeps session.path good)
    (hsees : call.FindsTombstone platform env session d.files → d.Settled session.path) :
    Meets (fun t => t.Keeps session.path fun b =>
        good b ∨ b ∈ (call.staged platform env session d).toList)
      (fun r t => match r with
        | .ok _ => ∃ b, t.Durable session.path b
        | .error _ => t.Keeps session.path fun b =>
            good b ∨ b ∈ (call.staged platform env session d).toList)
      (OnDisk.run platform env session call) d := by
  obtain ⟨bytes, -, hfile⟩ := h.files
  have hweaken : d.Keeps session.path fun b =>
      good b ∨ b ∈ (call.staged platform env session d).toList := h.mono fun b hb => .inl hb
  refine meets_bind ?_
  cases hread : env.io.read with
  | true => exact meets_step hweaken hweaken
  | false =>
      refine meets_step hweaken ?_
      simp only [hfile, okOr_some]
      refine meets_bind (meets_lift ?_)
      cases hplan : call.plan platform env.draws session bytes with
      | error e => exact hweaken
      | ok planned =>
          rcases planned with ⟨value, write⟩
          cases write with
          | none =>
              refine meets_pure ?_
              obtain ⟨b, -, hdurable⟩ := h.of_settled
                (hsees (Mutation.findsTombstone_of_plan hread hfile hplan))
              exact ⟨b, hdurable⟩
          | some write =>
              rcases write with ⟨out, seed⟩
              have hstaged : call.staged platform env session d = some out := by
                rw [Mutation.staged, hread, if_neg Bool.false_ne_true, hfile, Option.bind_some,
                  hplan]
                rfl
              have hor : (fun b => good b ∨ b ∈ (call.staged platform env session d).toList)
                  = fun b => good b ∨ b = out := by
                funext b
                rw [hstaged, Option.toList_some, List.mem_singleton]
              rw [hor]
              refine meets_bind ((OnDisk.persist_meets env.io seed h).mono (fun _ ht => ht)
                fun r t ht => ?_)
              cases r with
              | error e => exact ht
              | ok u => exact meets_pure ⟨out, ht⟩

/-- One call keeps the promise. -/
theorem Ledger.call_meets (h : l.Safe session.path) (hsees : l.Sees platform session env call) :
    Meets (Ledger.Safe session.path) (fun _ t => t.Safe session.path)
      (Ledger.call platform session env call) l := by
  obtain ⟨hpassed, hends⟩ := OnDisk.run_meets h hsees
  have hlast : (Ledger.call platform session env call l).state.Safe session.path := by
    show Ledger.Safe session.path (Ledger.close session.path _
      (OnDisk.run platform env session call l.disk).result
      (OnDisk.run platform env session call l.disk).state)
    cases hr : (OnDisk.run platform env session call l.disk).result with
    | error e =>
        rw [hr] at hends
        exact hends.mono fun b hb => List.mem_append.mpr hb
    | ok id =>
        rw [hr] at hends
        obtain ⟨b, hdurable⟩ := hends
        refine hdurable.keeps.mono fun b' hb' => ?_
        show b' ∈ (Disk.files _ session.path).toList
        rw [hdurable.files, hb']
        exact List.mem_singleton_self b
  constructor
  · intro t ht
    rcases List.mem_append.mp ht with hon | hlast'
    · obtain ⟨disk, hdisk, rfl⟩ := List.mem_map.mp hon
      exact (hpassed disk hdisk).mono fun b hb => List.mem_append.mpr hb
    · rw [List.mem_singleton.mp hlast']
      exact hlast
  · exact hlast

theorem Script.onLedger_meets {α : Type} {script : Script α} (h : l.Safe session.path)
    (hsees : script.Sees platform session l) :
    Meets (Ledger.Safe session.path) (fun _ t => t.Safe session.path)
      (script.onLedger platform session) l := by
  induction script generalizing l with
  | done r => exact meets_lift h
  | call env mutation next ih =>
      obtain ⟨hfirst, hrest⟩ := hsees
      refine meets_andThen ?_
      obtain ⟨hpassed, hends⟩ := Ledger.call_meets h hfirst
      exact ⟨hpassed, ih _ hends hrest⟩

/-- A run of operations keeps the promise at every point. -/
theorem runOperations_meets {ops : List Operation} (hpaths : ∀ op ∈ ops, op.session.path = path)
    (h : l.Safe path) (hsees : RunSees platform ops l) :
    Meets (Ledger.Safe path) (fun _ t => t.Safe path) (runOperations platform ops) l := by
  induction ops generalizing l with
  | nil => exact meets_pure h
  | cons op ops ih =>
      obtain ⟨hpath, hpaths'⟩ := List.forall_mem_cons.mp hpaths
      obtain ⟨hfirst, hrest⟩ := hsees
      refine meets_andThen ?_
      have hop : Meets (Ledger.Safe path) (fun _ t => t.Safe path)
          ((op.script platform).onLedger platform op.session) l := by
        rw [← hpath] at h ⊢
        exact Script.onLedger_meets h hfirst
      exact ⟨hop.passed, ih hpaths' hop.ends hrest⟩

/-- A run over a durable vault is safe at every point if none of its
deletes finds its item deleted by a rename that is not synced yet. -/
theorem mutations_crashSafe {disk : VaultDisk} {ops : List Operation}
    (hdurable : disk.Durable path bytes) (hpaths : ∀ op ∈ ops, op.session.path = path)
    (hsees : RunSees platform ops ⟨disk, [bytes]⟩) :
    CrashSafe platform path ops ⟨disk, [bytes]⟩ := by
  have hsafe : Ledger.Safe path ⟨disk, [bytes]⟩ :=
    hdurable.keeps.mono fun b hb => List.mem_singleton.mpr hb
  intro t ht files hcrash
  rcases List.mem_cons.mp ht with rfl | hpassed
  · exact hsafe.of_crash hcrash
  · exact ((runOperations_meets hpaths hsafe hsees).passed t hpassed).of_crash hcrash

-- ============================================================== samples

theorem Ledger.call_state_mem :
    (Ledger.call platform session env call l).state
      ∈ (Ledger.call platform session env call l).passed :=
  List.mem_append_right _ (List.mem_singleton_self _)

theorem runOperations_mem_call {ops : List Operation} {t : Ledger}
    (h : t ∈ (Ledger.call platform session env call l).passed) :
    t ∈ (runOperations platform (.mutation session env call :: ops) l).passed :=
  List.mem_append_left _ (List.mem_append_left _ h)

theorem runOperations_mem_rest {ops : List Operation} {t : Ledger}
    (h : t ∈ (runOperations platform ops (Ledger.call platform session env call l).state).passed) :
    t ∈ (runOperations platform (.mutation session env call :: ops) l).passed :=
  List.mem_append_right _ h

/-- A directory with one file, all of it on the medium. -/
def soleFile (path : Path) (bytes : Bytes) : VaultDisk where
  inode _ := ⟨bytes, true⟩
  next := 1
  durable := Function.update (fun _ => none) path (some 0)
  pending := []
  durable_lt name i h := by
    by_cases hname : name = path
    · rw [hname, Function.update_self] at h
      cases h
      exact Nat.one_pos
    · rw [Function.update_of_ne hname] at h
      cases h
  pending_lt c hc := by cases hc

theorem soleFile_durable (path : Path) (bytes : Bytes) :
    (soleFile path bytes).Durable path bytes where
  settled c hc := by cases hc
  held := ⟨0, if_pos rfl, rfl⟩

/-- Only the vault is there. -/
theorem soleFile_files_of_ne {p : Path} (hp : p ≠ path) : (soleFile path bytes).files p = none := by
  show Option.map _ (Function.update (fun _ => none) path (some 0) p) = none
  rw [Function.update_of_ne hp]
  rfl

/-- The sample environment, with the directory sync failing. -/
def unsyncedEnv : Env :=
  { sampleEnv with io := { parentSync := true } }

/-- A vault with one item. -/
theorem sample_vault :
    ∃ (v : VaultIdentity Platform.transparent) (m : ItemMap) (bytes : Bytes),
      Stored v m bytes ∧ m.live = [(zeroId, sampleItem)] := by
  obtain ⟨-, v, m, -, bytes, -, -, -, -, -, -, hstored, hlive⟩ :=
    @sample_added Unit _ (storedFrameLen_lt sampleItem_withinLimits)
  exact ⟨v, m, bytes, hstored, hlive⟩

/-- A delete whose directory sync fails, and an add after it. -/
theorem mutations_crashSafe_of_unsynced :
    ∃ (v : VaultIdentity Platform.transparent) (bytes : Bytes),
      CrashSafe Platform.transparent samplePath
        [.mutation (v.session samplePath) unsyncedEnv (.delete zeroId),
          .mutation (v.session samplePath) sampleEnv (.add sampleItem)]
        ⟨soleFile samplePath bytes, [bytes]⟩ := by
  obtain ⟨v, -, bytes, -, -⟩ := sample_vault
  refine ⟨v, bytes, mutations_crashSafe (soleFile_durable samplePath bytes) ?_ ?_⟩
  · intro op hop
    rcases List.mem_cons.mp hop with rfl | hop
    · rfl
    · rw [List.mem_singleton.mp hop]
      rfl
  · refine ⟨⟨fun _ => (soleFile_durable samplePath bytes).settled, trivial⟩, ⟨?_, trivial⟩, trivial⟩
    rintro ⟨id, _, _, hcall, -⟩
    cases hcall

/-- A delete whose directory sync fails leaves its tombstone under the
path; the next delete of the item returns `Ok` on the sight of it; and a
crash brings the item back. -/
theorem delete_acknowledged_and_lost :
    ∃ (v : VaultIdentity Platform.transparent) (m : ItemMap) (bytes : Bytes),
      Stored v m bytes ∧ m.live = [(zeroId, sampleItem)]
      ∧ (soleFile samplePath bytes).Durable samplePath bytes
      ∧ ¬ CrashSafe Platform.transparent samplePath
        [.mutation (v.session samplePath) unsyncedEnv (.delete zeroId),
          .mutation (v.session samplePath) sampleEnv (.delete zeroId)]
        ⟨soleFile samplePath bytes, [bytes]⟩ := by
  obtain ⟨v, m, bytes, hstored, hlive⟩ := sample_vault
  refine ⟨v, m, bytes, hstored, hlive, soleFile_durable samplePath bytes, fun hsafe => ?_⟩
  have hstatus : m.status zeroId = some (some sampleItem) := by
    apply TombstoneMap.mem_live.mp
    rw [hlive]
    exact List.mem_singleton_self _
  -- the first delete: its tombstone is under the path, not on the medium
  have hfile : (soleFile samplePath bytes).files (v.session samplePath).path = some bytes :=
    (soleFile_durable samplePath bytes).files
  have hcommits : (Mutation.delete zeroId).Commits unsyncedEnv (v.session samplePath).path
      (soleFile samplePath bytes).files m :=
    ⟨⟨(drawsWith_forAdd zeroId zeroId).toForFrame, sampleItem, hstatus⟩, rfl, zeroId, rfl, rfl,
      samplePath_tmp zeroId, soleFile_files_of_ne (samplePath_tmp_ne zeroId), rfl, rfl, rfl⟩
  have hfresh : (Mutation.delete zeroId).Fresh unsyncedEnv.draws m := trivial
  obtain ⟨out, hrun, hstored'⟩ := hstored.run_of_commits hfile rfl hfresh hcommits
  have hshows := OnDisk.run_shows Platform.transparent unsyncedEnv (v.session samplePath)
    (.delete zeroId) (soleFile samplePath bytes)
  have hlags : OnDisk.Lags (soleFile samplePath bytes) (OnDisk.run Platform.transparent unsyncedEnv
      (v.session samplePath) (.delete zeroId) (soleFile samplePath bytes)).state :=
    (OnDisk.run_lags rfl (OnDisk.Lags.refl _)).ends
  unfold Shows at hshows
  rw [hrun, Prod.mk.injEq] at hshows
  obtain ⟨-, hfiles⟩ := hshows
  generalize hl₁ : (Ledger.call Platform.transparent (v.session samplePath) unsyncedEnv
    (.delete zeroId) ⟨soleFile samplePath bytes, [bytes]⟩).state = l₁
  have hdisk : l₁.disk = (OnDisk.run Platform.transparent unsyncedEnv (v.session samplePath)
      (.delete zeroId) (soleFile samplePath bytes)).state := by
    rw [← hl₁]
    rfl
  rw [← hdisk] at hfiles hlags
  have hfile' : l₁.disk.files (v.session samplePath).path = some out := by
    rw [← hfiles]
    exact Fs.set_self ..
  -- the second delete reads the tombstone and returns
  have hdead : (m.assign zeroId none).status zeroId = some none := by
    rw [TombstoneMap.status_assign, if_pos rfl, hstatus]
    rfl
  have hplan : (Mutation.delete zeroId).plan Platform.transparent sampleEnv.draws
      (v.session samplePath) out = .ok ⟨none, none⟩ := by
    have hdelete : planDelete Platform.transparent sampleEnv.draws (v.session samplePath) zeroId out
        = .ok ⟨(), none⟩ := hstored'.planDelete_of_dead rfl hdead
    simp only [Mutation.plan, hdelete, ok_bind, pure_eq_ok]
  have hnoop : OnDisk.run Platform.transparent sampleEnv (v.session samplePath) (.delete zeroId)
      l₁.disk = ⟨.ok none, l₁.disk, [l₁.disk]⟩ :=
    OnDisk.mutate_of_noop hfile' rfl hplan
  have hlast : (Ledger.call Platform.transparent (v.session samplePath) sampleEnv (.delete zeroId)
      l₁).state = ⟨l₁.disk, [out]⟩ := by
    unfold Ledger.call
    simp only [hnoop, Ledger.close, hfile', Option.toList_some]
  -- the crash loses the rename
  have hpassed : (⟨l₁.disk, [out]⟩ : Ledger) ∈ (runOperations Platform.transparent
      [.mutation (v.session samplePath) unsyncedEnv (.delete zeroId),
        .mutation (v.session samplePath) sampleEnv (.delete zeroId)]
      ⟨soleFile samplePath bytes, [bytes]⟩).passed := by
    apply runOperations_mem_rest
    rw [hl₁]
    apply runOperations_mem_call
    rw [← hlast]
    exact Ledger.call_state_mem
  obtain ⟨b, hb, hcontent⟩ := hsafe _ (List.mem_cons_of_mem _ hpassed) _
    (Disk.crash_of_kept (List.nil_sublist _))
  have hdurable : l₁.disk.durable samplePath = some 0 := by
    rw [hlags.durable]
    show Function.update (fun _ => none) samplePath (some 0) samplePath = some 0
    rw [Function.update_self]
  have hinode : l₁.disk.inode 0 = ⟨bytes, true⟩ := hlags.inode 0 Nat.one_pos
  change (l₁.disk.durable samplePath).map _ = some b at hcontent
  rw [hdurable, Option.map_some, hinode, List.mem_singleton.mp hb, Option.some.injEq] at hcontent
  change bytes = out at hcontent
  subst hcontent
  have hsame : m = m.assign zeroId none := hstored.unique hstored' rfl
  rw [← hsame, hstatus] at hdead
  cases hdead

end MeissnerSeal
