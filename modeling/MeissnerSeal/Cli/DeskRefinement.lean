/-
A run of the program does to the files what the desk says.

# Quiet runs

`Request.Quiet` is what a request needs of the world to come to what the
desk says: no system call fails, the values it draws are drawn and new, its
temporary names are free, and no password or passphrase opens what another
has sealed. A file too long for `unlock`, an item the decoder rejects, an id
no item has and a name that is taken are no failures of the world; they are
answers of the desk.

# The step

Each request has a lemma that its `perform` gives the desk's answer
(`Answers`), by what the core's functions do to a stored map.
-/
import MeissnerSeal.Cli.DeskFiles
import MeissnerSeal.Export.Migration
import MeissnerSeal.Vault.Rewrite

namespace MeissnerSeal

open ByteCodec ExceptRules

variable {platform : Platform} {m : ItemMap}

-- ================================================================== lengths

/-- What the live items of a map take is in the file. -/
theorem payloadLen_sum_le (entries : List (ItemId × Option PlainItem)) :
    (((entries.filterMap fun entry => entry.2.map fun item => (entry.1, item)).map
        Prod.snd).map PlainItem.payloadLen).sum + 148 * entries.length
      ≤ (entries.map fun entry => storedFrameLen entry.2).sum := by
  induction entries with
  | nil => exact le_rfl
  | cons entry entries ih =>
      obtain ⟨id, content⟩ := entry
      cases content with
      | none =>
          have hlen : storedFrameLen none = 148 := rfl
          simp only [List.filterMap_cons, Option.map_none, List.map_cons, List.sum_cons,
            List.length_cons]
          omega
      | some item =>
          have hlen : storedFrameLen (some item) = 268 + item.payloadLen := rfl
          simp only [List.filterMap_cons, Option.map_some, List.map_cons, List.sum_cons,
            List.length_cons]
          omega

/-- An item set is shorter than the file that holds the items. -/
theorem itemSetLen_add_size_le (m : ItemMap) : itemSetLen m + 148 * m.size ≤ storedLen m := by
  have hsum := payloadLen_sum_le m.entries
  rw [storedLen, imageLen, tableSectionLen, itemSetLen, liveItems, TombstoneMap.live,
    TombstoneMap.size]
  omega

/-- A vault that opens has room for what an import adds. -/
theorem size_lt_of_storedLen (h : storedLen m ≤ maxVaultFileLen) :
    m.size + maxExportItemCount ≤ maxRecords ∧ itemSetLen m + tagLen < 2 ^ 32 := by
  have hle := itemSetLen_add_size_le m
  have hset : 4 ≤ itemSetLen m := Nat.le_add_right ..
  have hmax : maxVaultFileLen = 67108864 := rfl
  have hcount : maxExportItemCount = 4096 := rfl
  have hrecords : maxRecords = 67108864 := rfl
  have htag : tagLen = 16 := rfl
  omega

-- ================================================================ refusals

/-- Of two contents of a file the second counts. -/
theorem Fs.set_set (fs : Fs) (path : Path) (old new : Option Bytes) :
    (fs.set path old).set path new = fs.set path new := by
  funext p
  by_cases hp : p = path
  · rw [hp, Fs.set_self, Fs.set_self]
  · rw [Fs.set_of_ne _ _ hp, Fs.set_of_ne _ _ hp, Fs.set_of_ne _ _ hp]

/-- A program refuses if the rest refuses whatever was computed; a
computation that fails refuses by itself. -/
theorem FsM.refuses_bind {α β : Type} {x : Res α} {f : α → FsM β} {fs : Fs}
    (h : ∀ a, x = .ok a → ∃ e, f a fs = (.error e, fs)) :
    ∃ e, (FsM.lift x >>= f) fs = (.error e, fs) := by
  cases x with
  | error e => exact ⟨e, rfl⟩
  | ok a => exact h a rfl

/-- `create` where a file is. What it removes is the temporary name it
drew, and there is nothing under it. -/
theorem create_of_present {io : IoFaults} {draws : CreateDraws} {path : Path} {password : Bytes}
    {fs : Fs} (hsome : (fs path).isSome)
    (htmp : ∀ recordId, draws.recordId = some recordId → fs (uniqueTmpPath path recordId) = none) :
    ∃ e, create platform io draws path password fs = (.error e, fs) := by
  unfold create
  refine FsM.refuses_bind fun _ _ => FsM.refuses_bind fun vaultId _ =>
    FsM.refuses_bind fun recordId hrecord => FsM.refuses_bind fun _ _ =>
    FsM.refuses_bind fun _ _ => FsM.refuses_bind fun _ _ => FsM.refuses_bind fun _ _ => ?_
  have hfree := htmp recordId (okOr_eq_ok.mp hrecord)
  refine ⟨.io, ?_⟩
  simp only [persistVault, createNewFile, hsome, or_true, if_true, removeFile, hfree,
    Option.isNone_none]

section Stored

variable {v : VaultIdentity platform} {bytes : Bytes} {session : UnlockedVault} {fs : Fs}
  {io : IoFaults}

/-- `list`, both ways. -/
theorem Stored.list_cases (h : Stored v m bytes) (hfs : fs session.path = some bytes)
    (hkeys : session.keys = v.keys) (hread : io.read = false) :
    (AllWithinLimits m ∧ list platform io session fs = (.ok (liveSummaries m), fs))
      ∨ (¬ AllWithinLimits m ∧ ∃ e, list platform io session fs = (.error e, fs)) := by
  have hkeep : (list platform io session fs).2 = fs := list_fs io
  by_cases hall : AllWithinLimits m
  · exact .inl ⟨hall, Prod.ext ((h.list_eq_ok hfs hkeys hread).mpr ⟨hall, rfl⟩) hkeep⟩
  · refine .inr ⟨hall, ?_⟩
    cases hrun : (list platform io session fs).1 with
    | error e => exact ⟨e, Prod.ext hrun hkeep⟩
    | ok summaries => exact absurd ((h.list_eq_ok hfs hkeys hread).mp hrun).1 hall

/-- A view of an item over the limits. -/
theorem Stored.withItem_of_over {id : ItemId} {item : PlainItem} (h : Stored v m bytes)
    (hfs : fs session.path = some bytes) (hkeys : session.keys = v.keys) (hread : io.read = false)
    (hlive : m.status id = some (some item)) (hover : ¬ item.WithinLimits) :
    ∃ e, withItem platform io session id Except.ok fs = (.error e, fs) := by
  obtain ⟨records, loaded, hloaded, hentries, hload⟩ := h.loadVault_eq hfs hkeys io
  rw [hread] at hload
  unfold withItem
  rw [FsM.bind_apply, hload]
  show ∃ e, (FsM.lift (viewItem platform session loaded id) >>= fun view => FsM.lift (.ok view)) fs
    = (.error e, fs)
  refine FsM.refuses_bind fun view hview => ?_
  obtain ⟨item', hlive', hlimits, -⟩ := (hloaded.viewItem_eq_ok hkeys hentries).mp hview
  rw [hlive, Option.some.injEq, Option.some.injEq] at hlive'
  exact absurd (hlive' ▸ hlimits) hover

/-- `add` of an item that does not fit. -/
theorem Stored.add_of_over {env : Env} {item : PlainItem} (h : Stored v m bytes)
    (hfs : fs session.path = some bytes) (hkeys : session.keys = v.keys)
    (hread : env.io.read = false) (hover : ¬ storedFrameLen (some item) < 2 ^ 32) :
    ∃ e, add platform env session item fs = (.error e, fs) := by
  cases hplan : planAdd platform env.draws session item bytes with
  | error e => exact ⟨e, mutate_of_plan_error hfs hread hplan⟩
  | ok plan =>
      obtain ⟨id, seed, out, -, -, -, -, hfits, -⟩ := h.of_planAdd hkeys hplan
      exact absurd hfits hover

/-- `export` of a vault with an item over the limits. -/
theorem Stored.exportBundle_of_over {io : Nat → IoFaults} {nonceDraw : Option Nonce}
    {passphrase : Bytes} (h : Stored v m bytes) (hfs : fs session.path = some bytes)
    (hkeys : session.keys = v.keys) (hover : ¬ AllWithinLimits m) :
    ∃ e, exportBundle platform io nonceDraw session passphrase fs = (.error e, fs) := by
  unfold exportBundle
  refine FsM.refuses_bind fun _ _ => FsM.refuses_bind fun kdfParamsBytes _ => ?_
  rcases h.serializeLiveItemSet_cases io hfs hkeys with ⟨hall, -⟩ | ⟨-, e, hset⟩
  · exact absurd hall hover
  · exact ⟨e, by rw [FsM.bind_apply, hset]⟩

/-- No vault is a bundle. -/
theorem Stored.authenticate_of_vault (h : Stored v m bytes) (passphrase : Bytes) :
    ∃ e, authenticate platform bytes passphrase = .error e := by
  cases hopen : authenticate platform bytes passphrase with
  | error e => exact ⟨e, rfl⟩
  | ok items =>
      obtain ⟨-, ⟨parsed, -, -, hparsed, -⟩, -⟩ := opens_of_authenticate hopen
      have hkeys : (v.session ⟨"", ""⟩).keys = v.keys := rfl
      obtain ⟨records, loaded, hload, -⟩ := h.load hkeys
      obtain ⟨headerBytes, wrkBytes, headerLen, wrkLen, hfound⟩ := found_of_load hload
      exact (not_vault_and_bundle hfound.header_parsed hparsed).elim

end Stored

-- ================================================================== answers

namespace Cli

/-- The map of an import is the old one with the items inserted. -/
theorem insertAll_of_extends {m m' : ItemMap} {pairs : List (ItemId × PlainItem)}
    (h : m.Extends pairs m') : insertAll m pairs = m' := by
  induction pairs generalizing m with
  | nil => exact h.eq_of_nil.symm
  | cons pair pairs ih =>
      obtain ⟨hnew, hrest⟩ := h.of_cons
      rw [insertAll, List.foldl_cons, TombstoneMap.insert_of_not_mem pair.2 hnew]
      exact ih hrest

/-- The ids an import draws are the ids it returns. -/
theorem filterMap_range_eq {α : Type} {ids : List α} {f : Nat → Option α}
    (h : ∀ i < ids.length, ids[i]? = f i) : (List.range ids.length).filterMap f = ids := by
  induction ids generalizing f with
  | nil => rfl
  | cons id ids ih =>
      have hfirst : f 0 = some id := (h 0 (Nat.succ_pos _)).symm
      have hrest : (List.range ids.length).filterMap (f ∘ Nat.succ) = ids :=
        ih fun i hi => h (i + 1) (Nat.succ_lt_succ hi)
      rw [List.length_cons, List.range_succ_eq_map, List.filterMap_cons_some hfirst,
        List.filterMap_map, hrest]

/-- The desk decides with a loop what the map is asked. -/
theorem allWithinLimits_eq_true {m : ItemMap} : allWithinLimits m = true ↔ AllWithinLimits m := by
  simp only [allWithinLimits, List.all_eq_true, decide_eq_true_eq, AllWithinLimits, Prod.forall]

/-- At a world a program does what the desk says: it prints that, succeeds
or not, and leaves those files. -/
def Answers (platform : Platform) (program : CliM Unit) (world : World)
    (answer : Outcome × Desk) : Prop :=
  ∃ fs', (program world).2
      = { world with fs := fs', stdout := world.stdout ++ answer.1.printed }
    ∧ (program world).1.isOk = answer.1.ok ∧ answer.2.Holds platform fs'

variable {desk desk' : Desk} {world : World} {program : CliM Unit} {answer : Outcome × Desk}

/-- A failure that leaves the world. -/
theorem Answers.failed (h : desk.Holds platform world.fs)
    (hrun : ∃ e, program world = (.error e, world)) :
    Answers platform program world (.failed, desk) := by
  obtain ⟨e, he⟩ := hrun
  refine ⟨world.fs, ?_, ?_, h⟩
  · rw [he, Outcome.failed, List.append_nil]
  · rw [he]
    rfl

/-- A last line, over files of the desk. -/
theorem Answers.prints {bytes : Bytes} {fs' : Fs} (h : desk'.Holds platform fs')
    (hroom : world.room = none)
    (hrun : program world = printBytes bytes { world with fs := fs' }) :
    Answers platform program world (.success bytes, desk') := by
  have hroom' : ({ world with fs := fs' } : World).room = none := hroom
  have hprint := hrun.trans (printBytes_of_none hroom' bytes)
  exact ⟨fs', by rw [hprint]; rfl, by rw [hprint]; rfl, h⟩

/-- A line, and what is printed behind it. -/
theorem Answers.print_then {f : Unit → CliM Unit} {bytes rest : Bytes} (hroom : world.room = none)
    (h : Answers platform (f ()) { world with stdout := world.stdout ++ bytes }
      (.success rest, desk')) :
    Answers platform (printBytes bytes >>= f) world (.success (bytes ++ rest), desk') := by
  obtain ⟨fs', hrest, hok, hholds⟩ := h
  have hprint : (printBytes bytes >>= f) world
      = f () { world with stdout := world.stdout ++ bytes } := by
    rw [CliM.bind_apply, printBytes_of_none hroom]
  refine ⟨fs', ?_, ?_, hholds⟩
  · rw [hprint, hrest, List.append_assoc]
    rfl
  · rw [hprint]
    exact hok

section Steps

variable {α : Type} {m : FsM α} {f : α → CliM Unit}

/-- A step over the files that succeeds hands its files on. -/
theorem files_of_ok {a : α} {fs' : Fs} (h : m world.fs = (.ok a, fs')) :
    (CliM.files m >>= f) world = f a { world with fs := fs' } := by
  rw [CliM.files_bind, h]

/-- A step that fails ends the run with the files as they are. -/
theorem files_of_error (h : ∃ e, m world.fs = (.error e, world.fs)) :
    ∃ e, (CliM.files m >>= f) world = (.error e, world) := by
  obtain ⟨e, he⟩ := h
  exact ⟨e, by rw [CliM.files_bind, he]⟩

/-- The answer of the rest is the answer of the program. -/
theorem Answers.of_files {a : α} {fs₁ : Fs} (hm : m world.fs = (.ok a, fs₁))
    (h : Answers platform (f a) { world with fs := fs₁ } answer) :
    Answers platform (CliM.files m >>= f) world answer := by
  unfold Answers at h ⊢
  rw [files_of_ok hm]
  exact h

/-- A computation that succeeds changes nothing of the answer. -/
theorem Answers.of_lift {x : Res α} {a : α} (hx : x = .ok a)
    (h : Answers platform (f a) world answer) :
    Answers platform (CliM.lift x >>= f) world answer := by
  rw [hx]
  exact h

end Steps

/-- The first step of a request over a vault. -/
theorem Answers.of_unlock {f : UnlockedVault → CliM Unit} {io : IoFaults} {path : Path}
    {password : Bytes} (h : desk.Holds platform world.fs)
    (hquiet : QuietUnlock platform desk world.fs io path password)
    (hnone : desk.opened path password = none → answer = (.failed, desk))
    (hsome : ∀ (m : ItemMap) (v : VaultIdentity platform) (bytes : Bytes),
      desk.opened path password = some m → storedLen m ≤ maxVaultFileLen → v.password = password →
      world.fs (v.session path).path = some bytes → Stored v m bytes →
      Answers platform (f (v.session path)) world answer) :
    Answers platform (CliM.files (unlock platform io path password) >>= f) world answer := by
  cases hopened : desk.opened path password with
  | none =>
      rw [hnone hopened]
      exact .failed h (files_of_error (h.unlock_of_not_opened hquiet hopened))
  | some m =>
      obtain ⟨v, bytes, hpassword, hfs, hstored, hunlock⟩ := h.unlock_of_opened hquiet.read hopened
      exact .of_files hunlock
        (hsome m v bytes hopened (Desk.opened_eq_some.mp hopened).2 hpassword hfs hstored)

-- ================================================================== quiet

/-- Nothing of the world fails around a request, and what it makes
can be a file. -/
def Request.Quiet {Name : Type} (platform : Platform) (env : RunEnv Name) (desk : Desk) (fs : Fs) :
    Request → Prop
  | .init path _ _ _ =>
      env.createDraws.Drawn ∧ env.createIo.claim = false ∧ env.createIo.afterRename = false
      ∧ ∀ recordId, env.createDraws.recordId = some recordId →
          ReachesRename env.createIo fs (uniqueTmpPath path recordId)
  | .add path password _ id =>
      QuietUnlock platform desk fs env.unlockIo path password
      ∧ id = env.add.draws.recordId ∧ env.add.draws.ForAdd ∧ env.add.Persists path fs
      ∧ env.add.io.afterRename = false
      ∧ ∀ m, desk.opened path password = some m →
          ∀ id, env.add.draws.recordId = some id → id ∉ m.keys
  | .list path password =>
      QuietUnlock platform desk fs env.unlockIo path password ∧ env.readIo.read = false
  | .get path password _ =>
      QuietUnlock platform desk fs env.unlockIo path password ∧ env.readIo.read = false
  | .export path password _ output _ =>
      QuietUnlock platform desk fs env.unlockIo path password
      ∧ (∀ i, (env.exportIo i).read = false) ∧ env.exportNonce.isSome ∧ env.bundleOpen = false
      ∧ env.bundleWrite = none ∧ output.NamesFile
  | .import path password passphrase input ids =>
      QuietUnlock platform desk fs env.unlockIo path password
      ∧ ids = env.imports.idAt ∧ env.bundleRead = false
      ∧ (∀ own items bytes, desk input = some (.bundle own items) → fs input = some bytes →
          passphrase ≠ own →
          Authentic platform.cipher (BundleAsks platform passphrase bytes)
              (BundleAsks platform own bytes)
            ∧ PassphrasesApart platform own passphrase bytes)
      ∧ ∀ m items, desk.opened path password = some m → desk.unsealed input passphrase
        = some items →
          env.imports.Quiet path fs items.length ∧ env.imports.Fresh m items.length
  | .lock => True

variable {Name : Type} {env : RunEnv Name} {path output input : Path} {shown : String}
  {password confirm passphrase : Bytes} {item : PlainItem} {id : ItemId}

-- =============================================================== requests

/-- `init`: the confirmation, the password that is not empty and the free
path refuse each by itself, at the desk as in the program. -/
theorem answers_init (h : desk.Holds platform world.fs) (htotal : platform.kdf.Total)
    (hroom : world.room = none)
    (hquiet : (Request.init path shown password confirm).Quiet platform env desk world.fs) :
    Answers platform ((Request.init path shown password confirm).perform platform env) world
      (desk.exec (.init path shown password confirm)) := by
  obtain ⟨hdraws, hclaim, hafter, hreach⟩ := hquiet
  simp only [Desk.exec]
  by_cases hconfirm : password = confirm
  case neg =>
    rw [if_neg fun hall => hconfirm hall.1]
    exact .failed h ⟨_, by rw [Request.perform, rejectIf_pos _ hconfirm]; rfl⟩
  refine .of_lift (rejectIf_neg _ (not_not.mpr hconfirm)) ?_
  by_cases hempty : password = []
  · rw [if_neg fun hall => hall.2.1 hempty]
    refine .failed h (files_of_error ⟨.invalidState "empty password", ?_⟩)
    rw [create, FsM.bind_apply, FsM.lift, rejectIf_pos _ hempty]
  · rw [h.isNone_eq path]
    cases hfile : world.fs path with
    | none =>
        obtain ⟨fs', hrun⟩ := exists_create htotal hdraws hempty hclaim hfile hreach hafter
        obtain ⟨v, bytes, hpassword, hstored, hset, -⟩ := create_eq_ok hrun
        rw [if_pos ⟨hconfirm, hempty, rfl⟩]
        refine .prints ?_ hroom (files_of_ok hrun)
        rw [hset]
        exact h.set ⟨v, hpassword, hstored⟩
    | some bytes =>
        have hsome : (world.fs path).isSome := by rw [hfile]; rfl
        rw [if_neg fun hall => absurd hall.2.2 Bool.false_ne_true]
        exact .failed h (files_of_error (create_of_present hsome
          fun recordId hrecord => (hreach recordId hrecord).2.2.1))

/-- `add`: in an opened vault the outcome lies at the sizes and the draw,
both of which the desk looks at. -/
theorem answers_add (h : desk.Holds platform world.fs) (hroom : world.room = none)
    {draw : Option ItemId}
    (hquiet : (Request.add path password item draw).Quiet platform env desk world.fs) :
    Answers platform ((Request.add path password item draw).perform platform env) world
      (desk.exec (.add path password item draw)) := by
  obtain ⟨hunlock, rfl, hdraws, hpersists, hafter, hfresh⟩ := hquiet
  refine .of_unlock h hunlock (fun hnone => by simp only [Desk.exec, hnone]) ?_
  intro m v bytes hopened hle hpassword hfs hstored
  obtain ⟨id, hid⟩ := Option.isSome_iff_exists.mp hdraws.recordId
  have hnew := hfresh m hopened id hid
  simp only [Desk.exec, hopened, hid]
  by_cases hfits : storedFrameLen (some item) < 2 ^ 32
  · have hsize := (size_lt_of_storedLen hle).1
    have hcount : maxExportItemCount = 4096 := rfl
    have hready : (Mutation.add item).Ready env.add.draws m := ⟨hdraws, hfits, by omega⟩
    obtain ⟨out, hrun, hstored'⟩ :=
      hstored.add_of_commits hfs rfl hid hnew ⟨hready, hpersists⟩
    rw [hafter] at hrun
    rw [if_pos hfits, TombstoneMap.insert_of_not_mem item hnew]
    exact .prints (h.set ⟨v, hpassword, hstored'⟩) hroom (files_of_ok hrun)
  · rw [if_neg hfits]
    exact .failed h (files_of_error
      (hstored.add_of_over hfs rfl hpersists.1 hfits))

/-- `list`: one item that the decoder rejects refuses the whole listing, at
the desk too. -/
theorem answers_list (h : desk.Holds platform world.fs) (hroom : world.room = none)
    (hquiet : (Request.list path password).Quiet platform env desk world.fs) :
    Answers platform ((Request.list path password).perform platform env) world
      (desk.exec (.list path password)) := by
  obtain ⟨hunlock, hread⟩ := hquiet
  refine .of_unlock h hunlock (fun hnone => by simp only [Desk.exec, hnone]) ?_
  intro m v bytes hopened hle hpassword hfs hstored
  simp only [Desk.exec, hopened]
  rcases hstored.list_cases hfs rfl hread with
    ⟨hall, hlist⟩ | ⟨hall, hlist⟩
  · rw [if_pos (allWithinLimits_eq_true.mpr hall)]
    exact .of_files hlist (.prints h hroom rfl)
  · rw [if_neg (mt allWithinLimits_eq_true.mp hall)]
    exact .failed h (files_of_error hlist)

/-- `get`: of an id that is live and readable the text with its note line. -/
theorem answers_get (h : desk.Holds platform world.fs) (hroom : world.room = none)
    (hquiet : (Request.get path password id).Quiet platform env desk world.fs) :
    Answers platform ((Request.get path password id).perform platform env) world
      (desk.exec (.get path password id)) := by
  obtain ⟨hunlock, hread⟩ := hquiet
  refine .of_unlock h hunlock (fun hnone => by simp only [Desk.exec, hnone, Option.bind_none]) ?_
  intro m v bytes hopened hle hpassword hfs hstored
  simp only [Desk.exec, hopened, Option.bind_some]
  split
  case h_1 item hitem =>
    by_cases hlimits : item.WithinLimits
    · have hview := hstored.withItem_of_live Except.ok hfs rfl hread hitem
        hlimits
      rw [if_pos hlimits, List.append_assoc]
      exact .of_files hview (.print_then hroom (.print_then hroom (.prints h hroom rfl)))
    · rw [if_neg hlimits]
      exact .failed h (files_of_error
        (hstored.withItem_of_over hfs rfl hread hitem hlimits))
  case h_2 hnot =>
    exact .failed h (files_of_error ⟨_, hstored.withItem_of_not_live
      Except.ok hfs rfl hread fun old hlive => hnot old hlive⟩)

/-- `export`: the output has to be new. The steps before it change no file,
so in whatever order they fail the desk stays as it was. -/
theorem answers_export (h : desk.Holds platform world.fs) (htotal : platform.kdf.Total)
    (hroom : world.room = none)
    (hquiet : (Request.export path password passphrase output shown).Quiet platform env desk
      world.fs) :
    Answers platform ((Request.export path password passphrase output shown).perform platform env)
      world (desk.exec (.export path password passphrase output shown)) := by
  obtain ⟨hunlock, hreads, hnonce, hopen, hwrite, hname⟩ := hquiet
  by_cases hshort : passphrase.length < minExportPassphraseLen
  · have hexec : desk.exec (.export path password passphrase output shown) = (.failed, desk) := by
      simp only [Desk.exec]
      split
      · rw [if_neg fun hall => by omega]
      · rfl
    rw [hexec]
    exact .failed h ⟨_, by rw [Request.perform, rejectIf_pos _ hshort]; rfl⟩
  refine .of_lift (rejectIf_neg _ hshort) ?_
  refine .of_unlock h hunlock (fun hnone => by simp only [Desk.exec, hnone]) ?_
  intro m v bytes hopened hle hpassword hfs hstored
  simp only [Desk.exec, hopened]
  by_cases hall : AllWithinLimits m
  case neg =>
    rw [if_neg fun hif => hall (allWithinLimits_eq_true.mp hif.2.1)]
    exact .failed h (files_of_error
      (hstored.exportBundle_of_over hfs rfl hall))
  obtain ⟨nonce, hdraw⟩ := Option.isSome_iff_exists.mp hnonce
  have hpass : passphrase ≠ [] := by
    rintro rfl
    exact hshort (by decide)
  obtain ⟨bundle, hok⟩ : ∃ bundle, (MeissnerSeal.exportBundle platform env.exportIo (some nonce)
      (v.session path) passphrase world.fs).1 = .ok bundle :=
    (hstored.exists_exportBundle hfs rfl htotal hpass hreads).mpr
      ⟨hall, (size_lt_of_storedLen hle).2⟩
  have hrun : MeissnerSeal.exportBundle platform env.exportIo env.exportNonce (v.session path)
      passphrase world.fs = (.ok bundle, _) := Prod.ext (by rw [hdraw]; exact hok) rfl
  have hbundle := hstored.bundleFor hfs rfl hrun
  rw [(hstored.of_exportBundle hfs rfl hrun).2.1] at hrun
  refine .of_files hrun ?_
  rw [h.isNone_eq output]
  cases houtput : world.fs output with
  | some old =>
      rw [if_neg fun hif => absurd hif.2.2 Bool.false_ne_true]
      refine .failed h (files_of_error ⟨.io, ?_⟩)
      rw [createNewFile, houtput]
      simp only [Option.isSome_some, or_true, if_true]
  | none =>
      rw [if_pos ⟨not_lt.mp hshort, allWithinLimits_eq_true.mpr hall, rfl⟩]
      have hcreate : createNewFile env.bundleOpen output world.fs
          = (.ok (), world.fs.set output (some [])) := by
        rw [createNewFile, houtput, hopen]
        simp [hname]
      have hwritten : writeAll env.bundleWrite output bundle (world.fs.set output (some []))
          = (.ok (), world.fs.set output (some bundle)) := by
        simp only [writeAll, hwrite, Fs.set_set]
      exact .of_files hcreate (.of_files hwritten (.prints (h.set hbundle) hroom rfl))

/-- The ids go out line by line, and are one text at the desk. -/
theorem answers_printIds (ids : List ItemId) (h : desk.Holds platform world.fs)
    (hroom : world.room = none) :
    Answers platform (printIds ids) world
      (.success (ids.flatMap fun id => lineOf (hexId id)), desk) := by
  induction ids generalizing world with
  | nil => exact ⟨world.fs, by rw [List.flatMap_nil, Outcome.success, List.append_nil]; rfl, rfl, h⟩
  | cons id ids ih => exact .print_then hroom (ih h hroom)

/-- What the desk unseals, the file opens to. -/
theorem Desk.Holds.authenticate_of_unsealed {fs : Fs} {items : List PlainItem}
    (h : desk.Holds platform fs) (hunsealed : desk.unsealed input passphrase = some items) :
    ∃ bundle, fs input = some bundle ∧ authenticate platform bundle passphrase = .ok items
      ∧ items.length ≤ maxExportItemCount ∧ ∀ item ∈ items, item.WithinLimits := by
  unfold Desk.unsealed at hunsealed
  split at hunsealed
  case h_2 => cases hunsealed
  case h_1 own items' hdesk =>
    obtain ⟨⟨rfl, hcount⟩, hitems⟩ := Option.ite_none_right_eq_some.mp hunsealed
    obtain rfl := Option.some.inj hitems
    obtain ⟨bundle, hfile, hin⟩ := h.present input _ hdesk
    exact ⟨bundle, hfile, hin.opens.trans (if_pos hcount), hcount, hin.limits⟩

/-- What it does not, the file does not. -/
theorem Desk.Holds.authenticate_of_not_unsealed {fs : Fs} {bundle : Bytes}
    (h : desk.Holds platform fs) (hfile : fs input = some bundle)
    (hideal : ∀ own items bytes, desk input = some (.bundle own items) → fs input = some bytes →
      passphrase ≠ own →
      Authentic platform.cipher (BundleAsks platform passphrase bytes)
          (BundleAsks platform own bytes)
        ∧ PassphrasesApart platform own passphrase bytes)
    (hunsealed : desk.unsealed input passphrase = none) :
    ∃ e, authenticate platform bundle passphrase = .error e := by
  cases hdesk : desk input with
  | none => rw [h.absent input hdesk] at hfile; cases hfile
  | some artifact =>
      obtain ⟨bytes, hbytes, hin⟩ := h.present input artifact hdesk
      obtain rfl : bytes = bundle := Option.some.inj (hbytes.symm.trans hfile)
      cases artifact with
      | vault own m =>
          obtain ⟨v, -, hstored⟩ := hin
          exact hstored.authenticate_of_vault passphrase
      | bundle own items =>
          by_cases hsame : passphrase = own
          · have hcount : ¬ items.length ≤ maxExportItemCount := fun hle => by
              simp only [Desk.unsealed, hdesk, hsame, hle, and_self, if_true, reduceCtorEq]
                at hunsealed
            rw [hsame, hin.opens, if_neg hcount]
            exact ⟨_, rfl⟩
          · obtain ⟨hauth, hapart⟩ := hideal own items bytes hdesk hfile hsame
            exact authenticate_of_other hsame hauth hapart

/-- `import`: what the bundle holds is pushed in order under the ids drawn.
A file that is none of the desk's bundles does not open. -/
theorem answers_import {ids : Nat → Option ItemId} (h : desk.Holds platform world.fs)
    (hroom : world.room = none)
    (hquiet : (Request.import path password passphrase input ids).Quiet platform env desk
      world.fs) :
    Answers platform ((Request.import path password passphrase input ids).perform platform env)
      world (desk.exec (.import path password passphrase input ids)) := by
  obtain ⟨hunlock, rfl, hread, hideal, hadds⟩ := hquiet
  refine .of_unlock h hunlock (fun hnone => by simp only [Desk.exec, hnone]) ?_
  intro m v bytes hopened hle hpassword hfs hstored
  have hfetch : ∀ bundle, world.fs input = some bundle →
      readFile env.bundleRead input world.fs = (.ok bundle, world.fs) := by
    intro bundle hfile
    rw [readFile_of_some hfile, hread]
    rfl
  cases hunsealed : desk.unsealed input passphrase with
  | none =>
      simp only [Desk.exec, hopened, hunsealed]
      cases hfile : world.fs input with
      | none =>
          exact .failed h (files_of_error ⟨.io, by rw [readFile, hread, hfile]; rfl⟩)
      | some bundle =>
          refine .of_files (hfetch bundle hfile) (.failed h (files_of_error ?_))
          obtain ⟨e, he⟩ := h.authenticate_of_not_unsealed hfile hideal hunsealed
          exact ⟨e, by rw [MeissnerSeal.importBundle, FsM.bind_apply, FsM.lift, he]⟩
  | some items =>
      obtain ⟨bundle, hfile, hauth, hcount, hlimits⟩ := h.authenticate_of_unsealed hunsealed
      obtain ⟨hquiet, hfresh⟩ := hadds m items hopened hunsealed
      have hclean : ∀ i < items.length, env.imports.AddClean path world.fs m items i := by
        intro i hi
        obtain ⟨hdraws, hpersists, hafter⟩ := hquiet i hi
        have hsize := (size_lt_of_storedLen hle).1
        exact ⟨⟨_, List.getElem?_eq_getElem hi, hdraws,
          storedFrameLen_lt (hlimits _ (List.getElem_mem hi)), by omega, hpersists⟩, hafter⟩
      obtain ⟨ids, out, m', hloop, hstored', hlen, hids, hextends⟩ :=
        hstored.importLoop_of_clean hfs rfl hfresh hclean
      have hdrawn : (List.range items.length).filterMap env.imports.idAt = ids := by
        rw [← hlen] at hids ⊢
        exact filterMap_range_eq hids
      have himport : MeissnerSeal.importBundle platform env.imports (v.session path)
        bundle passphrase
          world.fs = (.ok ids, world.fs.set path (some out)) := by
        rw [MeissnerSeal.importBundle, FsM.bind_apply, FsM.lift, hauth]
        exact hloop
      simp only [Desk.exec, hopened, hunsealed, hdrawn]
      rw [insertAll_of_extends hextends]
      exact .of_files (hfetch bundle hfile) (.of_files himport
        (answers_printIds ids (h.set ⟨v, hpassword, hstored'⟩) hroom))

-- ================================================================= the step

/-- A quiet request is its answer at the desk. -/
theorem Desk.Holds.answers {request : Request} (h : desk.Holds platform world.fs)
    (htotal : platform.kdf.Total) (hroom : world.room = none)
    (hquiet : request.Quiet platform env desk world.fs) :
    Answers platform (request.perform platform env) world (desk.exec request) := by
  cases request with
  | init path shown password confirm => exact answers_init h htotal hroom hquiet
  | add path password item id => exact answers_add h hroom hquiet
  | list path password => exact answers_list h hroom hquiet
  | get path password id => exact answers_get h hroom hquiet
  | «export» path password passphrase output shown => exact answers_export h htotal hroom hquiet
  | «import» path password passphrase input ids => exact answers_import h hroom hquiet
  | lock => exact .prints h hroom rfl

end Cli

end MeissnerSeal
