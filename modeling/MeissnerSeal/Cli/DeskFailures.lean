/-
A run of the program in which anything may fail, at the desk.

# The step

Each request has a lemma that its `perform`, over files of the desk, ends in
what may come of it (`Ends`), whatever fails on the way. No file but the one
the request is for is any different: what a call of the core leaves alone is
known whatever fails in it, and what it leaves at its own path is one of a few
things.
-/
import MeissnerSeal.Cli.DeskRemains

namespace MeissnerSeal.Cli

open ByteCodec ExceptRules

variable {platform : Platform} {desk desk' : Desk} {fs fs' : Fs} {path : Path}
  {secrets : List Bytes} {drawn drawn' : List ItemId}

-- ====================================================================== ends

/-- At a world a program comes to what may come of the request, and leaves
files of the desk it comes to. -/
def Ends (platform : Platform) (secrets : List Bytes) (desk : Desk) (request : Request)
    (drawn : List ItemId) (program : CliM Unit) (world : World) : Prop :=
  ∃ outcome desk' fs', (program world).2
      = { world with fs := fs', stdout := world.stdout ++ outcome.printed }
    ∧ (program world).1.isOk = outcome.ok ∧ desk.MayAnswer request outcome desk'
    ∧ desk'.Survives platform secrets drawn fs'

section Ends

variable {request : Request} {program : CliM Unit} {world : World} {α : Type} {m : FsM α}
  {f : α → CliM Unit}

/-- A program that fails, with nothing printed. -/
theorem Ends.failed {e : CoreError} (hrun : program world = (.error e, { world with fs := fs' }))
    (hanswer : desk.MayAnswer request .failed desk')
    (h : desk'.Survives platform secrets drawn fs') :
    Ends platform secrets desk request drawn program world := by
  refine ⟨.failed, desk', fs', ?_, ?_, hanswer, h⟩
  · rw [hrun, Outcome.failed, List.append_nil]
  · rw [hrun]
    rfl

/-- A step over the files that fails ends the run. -/
theorem Ends.files_failed {e : CoreError} (hm : m world.fs = (.error e, fs'))
    (hanswer : desk.MayAnswer request .failed desk')
    (h : desk'.Survives platform secrets drawn fs') :
    Ends platform secrets desk request drawn (CliM.files m >>= f) world :=
  .failed (by rw [CliM.files_bind, hm]) hanswer h

/-- A step over the files that succeeds leaves the rest of the
program to end. -/
theorem Ends.of_files {a : α} (hm : m world.fs = (.ok a, fs'))
    (h : Ends platform secrets desk request drawn (f a) { world with fs := fs' }) :
    Ends platform secrets desk request drawn (CliM.files m >>= f) world := by
  unfold Ends at h ⊢
  rw [files_of_ok hm]
  exact h

/-- The last text, which is the desk's. -/
theorem Ends.prints {text : Bytes} (hroom : world.room = none)
    (hprogram : program = printBytes text)
    (hexec : desk.exec request = (.success text, desk'))
    (h : desk'.Survives platform secrets drawn world.fs) :
    Ends platform secrets desk request drawn program world := by
  have hanswer : desk.MayAnswer request (.success text) desk' := by
    have hanswered : desk.MayAnswer request (desk.exec request).1 (desk.exec request).2 :=
      .answered request
    rw [hexec] at hanswered
    exact hanswered
  rw [hprogram]
  exact ⟨.success text, desk', world.fs, by rw [printBytes_of_none hroom]; rfl,
    by rw [printBytes_of_none hroom]; rfl, hanswer, h⟩

/-- A request over a vault goes on in a session of it, or ends at the door. -/
theorem Ends.of_unlock {f : UnlockedVault → CliM Unit} {io : IoFaults} {password : Bytes}
    (h : desk.Survives platform secrets drawn world.fs) (hname : ¬ TmpName path)
    (hapart : VaultApart platform secrets world.fs path password) (hsub : drawn ⊆ drawn')
    (hopens : ∀ (m : ItemMap) (v : VaultIdentity platform) (bytes : Bytes),
      desk.opened path password = some m → v.password = password →
      world.fs (v.session path).path = some bytes → Stored v m bytes →
      Ends platform secrets desk request drawn' (f (v.session path)) world) :
    Ends platform secrets desk request drawn'
      (CliM.files (unlock platform io path password) >>= f) world := by
  have hreads : (unlock platform io path password world.fs).2 = world.fs :=
    reads_unlock platform io path password world.fs
  rcases hrun : unlock platform io path password world.fs with ⟨r, fs'⟩
  rw [hrun] at hreads
  subst hreads
  cases r with
  | error e => exact .files_failed hrun (.refused _) (h.unchanged hsub)
  | ok session =>
      obtain ⟨m, v, bytes, hopened, hpassword, rfl, hfs, hstored⟩ :=
        h.of_unlock hname hapart (congrArg Prod.fst hrun)
      exact .of_files hrun (hopens m v bytes hopened hpassword hfs hstored)

end Ends

-- =================================================================== requests

section Requests

variable {Name : Type} {env : RunEnv Name} {world : World} {output input : Path} {shown : String}
  {password confirm passphrase : Bytes} {item : PlainItem} {id : ItemId}

/-- `init` leaves the files as they were, or claims its path and comes no
further, or has the new vault in place; only then may the desk have it, and
a failure after the rename leaves that unconfirmed. -/
theorem ends_init (h : desk.Survives platform secrets drawn world.fs) (hname : ¬ TmpName path)
    (hroom : world.room = none) (hsecret : password ∈ secrets) :
    Ends platform secrets desk (.init path shown password confirm) drawn
      ((Request.init path shown password confirm).perform platform env) world := by
  by_cases hconfirm : password = confirm
  case neg =>
    have hrun : (Request.init path shown password confirm).perform platform env world
        = (.error (.invalidState "password confirmation mismatch"), world) := by
      rw [Request.perform, rejectIf_pos _ hconfirm]
      rfl
    exact .failed hrun (.refused _) h
  rw [Request.perform, rejectIf_neg _ (not_not.mpr hconfirm)]
  show Ends platform secrets desk _ drawn (CliM.files _ >>= _) world
  have hleaves : ∀ p, Outside path p →
      (create platform env.createIo env.createDraws path password world.fs).2 p = world.fs p :=
    fun p hp => leaves_create platform env.createIo env.createDraws password hp world.fs
  have hcases : CreateLeaves platform path password world.fs
      (create platform env.createIo env.createDraws path password world.fs) :=
    createLeaves_create env.createIo env.createDraws path password world.fs
  rcases hrun : create platform env.createIo env.createDraws path password world.fs with ⟨r, fs'⟩
  rw [hrun] at hleaves hcases
  rcases hcases with ⟨⟨e, rfl⟩, hsame⟩ | ⟨hnone, hclaimed | ⟨v, bytes, hpassword, hstored, hfs'⟩⟩
  · have hfile := h.files path hname
    rw [← hsame] at hfile
    exact .files_failed hrun (.refused _) (h.keep hleaves hfile (List.Subset.refl _))
  all_goals
    -- where no file is, the desk has none
    have hdesk : desk path = none := by
      cases hdesk : desk path with
      | none => rfl
      | some artifact =>
          obtain ⟨bytes, hbytes, -⟩ := h.present hdesk
          rw [hnone] at hbytes
          cases hbytes
  · obtain ⟨⟨e, rfl⟩, hempty⟩ := hclaimed
    refine .files_failed hrun (.refused _) (h.keep hleaves ?_ (List.Subset.refl _))
    rw [hdesk]
    intro bytes hbytes
    obtain rfl := Option.some.inj (hempty.symm.trans hbytes)
    exact junk_nil
  · have hsurvives : (desk.set path (.vault password TombstoneMap.empty)).Survives platform secrets
      drawn fs' := by
      refine h.update hname hleaves hfs' ⟨v, hpassword, hstored⟩ hsecret ?_ (List.Subset.refl _)
      intro _ _ hvault id hid
      cases hvault
      cases hid
    have hexec : desk.exec (.init path shown password confirm)
        = (.success (lineOf ("Created vault: " ++ shown)),
          desk.set path (.vault password TombstoneMap.empty)) := by
      rw [Desk.exec, hdesk]
      exact if_pos ⟨hconfirm, hpassword ▸ v.password_ne, rfl⟩
    cases r with
    | error e =>
        refine .files_failed hrun (.unconfirmed _) ?_
        rw [hexec]
        exact hsurvives
    | ok _ => exact .of_files hrun (.prints hroom rfl hexec hsurvives)

/-- `list` changes no file, and prints what the desk does or nothing. -/
theorem ends_list (h : desk.Survives platform secrets drawn world.fs) (hname : ¬ TmpName path)
    (hroom : world.room = none) (hapart : VaultApart platform secrets world.fs path password) :
    Ends platform secrets desk (.list path password) drawn
      ((Request.list path password).perform platform env) world := by
  refine .of_unlock h hname hapart (List.Subset.refl _) fun m v bytes hopened _ hfs hstored => ?_
  have hkeep : (list platform env.readIo (v.session path) world.fs).2 = world.fs :=
    list_fs env.readIo
  rcases hrun : list platform env.readIo (v.session path) world.fs with ⟨r, fs'⟩
  rw [hrun] at hkeep
  subst hkeep
  cases r with
  | error e => exact .files_failed hrun (.refused _) h
  | ok summaries =>
      obtain ⟨hall, rfl⟩ := hstored.of_list hfs rfl (congrArg Prod.fst hrun)
      refine .of_files hrun (.prints hroom rfl ?_ h)
      simp only [Desk.exec, hopened, if_pos (allWithinLimits_eq_true.mpr hall)]

/-- `get` changes no file, and prints what the desk does or nothing. -/
theorem ends_get (h : desk.Survives platform secrets drawn world.fs) (hname : ¬ TmpName path)
    (hroom : world.room = none) (hapart : VaultApart platform secrets world.fs path password) :
    Ends platform secrets desk (.get path password id) drawn
      ((Request.get path password id).perform platform env) world := by
  refine .of_unlock h hname hapart (List.Subset.refl _) fun m v bytes hopened _ hfs hstored => ?_
  have hkeep : (withItem platform env.readIo (v.session path) id Except.ok world.fs).2 = world.fs :=
    withItem_fs env.readIo id Except.ok
  rcases hrun : withItem platform env.readIo (v.session path) id Except.ok world.fs with ⟨r, fs'⟩
  rw [hrun] at hkeep
  subst hkeep
  cases r with
  | error e => exact .files_failed hrun (.refused _) h
  | ok view =>
      obtain ⟨-, item, hitem, hlimits, rfl⟩ := hstored.of_withItem hfs rfl (congrArg Prod.fst hrun)
      have hexec : desk.exec (.get path password id) = (.success
          (lineOf "NOTE: secret printed to stdout" ++ item.secret ++ utf8 "\n"), desk) := by
        simp only [Desk.exec, hopened, Option.bind_some, hitem, if_pos hlimits]
      refine .of_files hrun (.prints hroom ?_ hexec h)
      rw [List.append_assoc, ← printBytes_append, ← printBytes_append]
      rfl

/-- `add` commits or leaves the vault as it was. That it committed is known
of its faults and its draws before it runs (`Commits`), and whether it says
so lies at what fails after the rename. -/
theorem ends_add (h : desk.Survives platform secrets drawn world.fs) (hname : ¬ TmpName path)
    (hroom : world.room = none) (hapart : VaultApart platform secrets world.fs path password)
    (hnodup : (drawn ++ env.add.draws.recordId.toList).Nodup) :
    Ends platform secrets desk (.add path password item env.add.draws.recordId)
      (drawn ++ env.add.draws.recordId.toList)
      ((Request.add path password item env.add.draws.recordId).perform platform env) world := by
  have hsub : drawn ⊆ drawn ++ env.add.draws.recordId.toList := List.subset_append_left ..
  refine .of_unlock h hname hapart hsub fun m v bytes hopened hpassword hfs hstored => ?_
  have hdesk := (Desk.opened_eq_some.mp hopened).1
  have hsecret : password ∈ secrets := h.sealed path _ hdesk
  have hleaves : ∀ p, Outside path p →
      (MeissnerSeal.add platform env.add (v.session path) item world.fs).2 p = world.fs p :=
    fun p hp => leaves_add platform (v.session path) env.add item hp world.fs
  by_cases hcommits : (Mutation.add item).Commits env.add path world.fs m
  case neg =>
    obtain ⟨e, fs', hrun, hkeep⟩ := hstored.add_of_not_commits hfs rfl hcommits
    rw [hrun] at hleaves
    refine .files_failed hrun (.refused _) (h.keep hleaves ?_ hsub)
    -- the vault's bytes are still those of the desk's vault
    have hfile := h.files path hname
    rw [hdesk] at hfile ⊢
    obtain ⟨bytes', hbytes', hin⟩ := hfile
    exact ⟨bytes', (hkeep.trans hfs.symm).trans hbytes', hin⟩
  obtain ⟨hdraws, hfits, -⟩ := id hcommits.1
  obtain ⟨id, hid⟩ := Option.isSome_iff_exists.mp hdraws.recordId
  have hmem : id ∈ env.add.draws.recordId.toList := by rw [hid]; exact List.mem_singleton_self id
  have hnew : id ∉ m.keys := fun hold =>
    (List.nodup_append.mp hnodup).2.2 id (h.keys path password m hdesk id hold) id hmem rfl
  obtain ⟨out, hrun, hstored'⟩ := hstored.add_of_commits hfs rfl hid hnew hcommits
  rw [hrun] at hleaves
  have hsurvives : (desk.set path (.vault password (m.push id item hnew))).Survives platform secrets
      (drawn ++ env.add.draws.recordId.toList) (world.fs.set path (some out)) := by
    refine h.update hname hleaves (Fs.set_self ..) ⟨v, hpassword, hstored'⟩ hsecret
      ?_ hsub
    intro _ _ hvault j hj
    cases hvault
    rw [TombstoneMap.keys_push, List.mem_append, List.mem_singleton] at hj
    obtain hj | rfl := hj
    · exact hsub (h.keys path password m hdesk j hj)
    · exact List.mem_append_right _ hmem
  have hexec : desk.exec (.add path password item env.add.draws.recordId)
      = (.success (lineOf ("Item ID: " ++ hexId id)),
        desk.set path (.vault password (m.push id item hnew))) := by
    simp only [Desk.exec, hopened, hid, if_pos hfits, TombstoneMap.insert_of_not_mem item hnew]
  -- the vault is in place; the fsync of the parent decides what is returned
  cases hafter : env.add.io.afterRename with
  | true =>
      rw [hafter, if_pos rfl] at hrun
      refine .files_failed hrun (.unconfirmed _) ?_
      rw [hexec]
      exact hsurvives
  | false =>
      rw [hafter] at hrun
      exact .of_files hrun (.prints hroom rfl hexec hsurvives)

/-- Ids drawn one after the other are the first of all that are drawn. -/
theorem take_filterMap_range {α : Type} {ids : List α} {f : Nat → Option α} {n : Nat}
    (h : ∀ i < ids.length, ids[i]? = f i) (hn : ids.length ≤ n) :
    ((List.range n).filterMap f).take ids.length = ids := by
  obtain ⟨k, rfl⟩ := Nat.exists_eq_add_of_le hn
  rw [List.range_add, List.filterMap_append, filterMap_range_eq h, List.take_left]

/-- What the steps of an export leave of its output. -/
theorem ends_exported {m : ItemMap} {bundle : Bytes}
    (h : desk.Survives platform secrets drawn world.fs)
    (hname : ¬ TmpName output) (hroom : world.room = none) (hsecret : passphrase ∈ secrets)
    (hopened : desk.opened path password = some m)
    (hlen : minExportPassphraseLen ≤ passphrase.length) (hall : AllWithinLimits m)
    (hbundle : BundleFor platform passphrase (liveItems m) bundle) :
    Ends platform secrets desk (.export path password passphrase output shown) drawn
      (do
        CliM.files (createNewFile env.bundleOpen output)
        CliM.files (writeAll env.bundleWrite output bundle)
        printLine ("Exported encrypted bundle to " ++ shown)) world := by
  rcases createNewFile_cases env.bundleOpen output world.fs with
    ⟨-, -, hfree, hcreate⟩ | ⟨-, hcreate⟩
  case inr => exact .files_failed hcreate (.refused _) h
  refine .of_files hcreate ?_
  -- the program found the output free
  have hdesk : desk output = none := by
    cases hdesk : desk output with
    | none => rfl
    | some artifact =>
        obtain ⟨bytes, hbytes, -⟩ := h.present hdesk
        rw [hfree] at hbytes
        cases hbytes
  have hleaves : ∀ (contents : Bytes) (p : Path), Outside output p →
      (world.fs.set output (some contents)) p = world.fs p :=
    fun contents p hp => Fs.set_of_ne _ _ hp.ne
  have hexec : desk.exec (.export path password passphrase output shown)
      = (.success (lineOf ("Exported encrypted bundle to " ++ shown)),
        desk.set output (.bundle passphrase (liveItems m))) := by
    simp only [Desk.exec, hopened]
    exact if_pos ⟨hlen, allWithinLimits_eq_true.mpr hall, by rw [hdesk]; rfl⟩
  have hsurvives : (desk.set output (.bundle passphrase (liveItems m))).Survives
    platform secrets drawn
      (world.fs.set output (some bundle)) := by
    refine h.update hname (hleaves bundle) (Fs.set_self ..) hbundle hsecret ?_ (List.Subset.refl _)
    intro _ _ hvault
    cases hvault
  cases hwrite : env.bundleWrite with
  | none =>
      have hwritten : writeAll none output bundle (world.fs.set output (some []))
          = (.ok (), world.fs.set output (some bundle)) := by
        simp only [writeAll, Fs.set_set]
      exact .of_files hwritten (.prints hroom rfl hexec hsurvives)
  | some written =>
      have hrun : writeAll (some written) output bundle (world.fs.set output (some []))
          = (.error .io, world.fs.set output (some (bundle.take written))) := by
        simp only [writeAll, Fs.set_set]
      by_cases hpart : written < bundle.length
      · -- the desk has no file there, and the program will find none
        obtain ⟨parsed, hparsed⟩ := hbundle.parsed
        refine .files_failed hrun (.refused _) (h.keep (hleaves _) ?_ (List.Subset.refl _))
        rw [hdesk]
        intro bytes hbytes
        rw [Fs.set_self, Option.some.injEq] at hbytes
        exact hbytes ▸ junk_take hparsed hpart
      · rw [List.take_of_length_le (not_lt.mp hpart)] at hrun
        refine .files_failed hrun (.unconfirmed _) ?_
        rw [hexec]
        exact hsurvives

/-- `export` writes to its output alone: a bundle that is cut short is junk,
which no import will take for one of the desk's. -/
theorem ends_export (h : desk.Survives platform secrets drawn world.fs) (hname : ¬ TmpName path)
    (houtput : ¬ TmpName output) (hroom : world.room = none) (hsecret : passphrase ∈ secrets)
    (hapart : VaultApart platform secrets world.fs path password) :
    Ends platform secrets desk (.export path password passphrase output shown) drawn
      ((Request.export path password passphrase output shown).perform platform env) world := by
  by_cases hshort : passphrase.length < minExportPassphraseLen
  · have hrun : (Request.export path password passphrase output shown).perform platform env world
        = (.error (.invalidState "export passphrase must be at least 12 characters (P-02)"),
          world) := by
      rw [Request.perform, rejectIf_pos _ hshort]
      rfl
    exact .failed hrun (.refused _) h
  rw [Request.perform, rejectIf_neg _ hshort]
  show Ends platform secrets desk _ drawn (CliM.files _ >>= _) world
  refine .of_unlock h hname hapart (List.Subset.refl _) fun m v bytes hopened _ hfs hstored => ?_
  have hreads : (MeissnerSeal.exportBundle platform env.exportIo env.exportNonce (v.session path)
      passphrase world.fs).2 = world.fs := reads_exportBundle platform _ _ _ passphrase world.fs
  rcases hrun : MeissnerSeal.exportBundle platform env.exportIo env.exportNonce (v.session path)
      passphrase world.fs with ⟨r, fs'⟩
  rw [hrun] at hreads
  subst hreads
  cases r with
  | error e => exact .files_failed hrun (.refused _) h
  | ok bundle =>
      have hall := (hstored.of_exportBundle hfs rfl hrun).1
      exact .of_files hrun (ends_exported h houtput hroom hsecret hopened (not_lt.mp hshort) hall
        (hstored.bundleFor hfs rfl hrun))

/-- `import` refuses a bundle that does not open, or adds some first part of
its items: all of them and their ids are printed, or some with the rest left
out or taken back (`importLoop_retracts`). -/
theorem ends_import (h : desk.Survives platform secrets drawn world.fs) (hname : ¬ TmpName path)
    (hinput : ¬ TmpName input) (hroom : world.room = none)
    (hapart : VaultApart platform secrets world.fs path password)
    (hbundle : BundleApart platform secrets world.fs input passphrase)
    (hnodup : (drawn ++ (List.range maxExportItemCount).filterMap env.imports.idAt).Nodup) :
    Ends platform secrets desk (.import path password passphrase input env.imports.idAt)
      (drawn ++ (List.range maxExportItemCount).filterMap env.imports.idAt)
      ((Request.import path password passphrase input env.imports.idAt).perform platform
        env) world := by
  have hsub : drawn ⊆ drawn ++ (List.range maxExportItemCount).filterMap env.imports.idAt :=
    List.subset_append_left ..
  refine .of_unlock h hname hapart hsub fun m v bytes hopened hpassword hfs hstored => ?_
  have hdesk := (Desk.opened_eq_some.mp hopened).1
  have hsecret : password ∈ secrets := h.sealed path _ hdesk
  -- the bundle is read
  cases hread : readFile env.bundleRead input world.fs with
  | mk r fs' =>
  have hreads : (readFile env.bundleRead input world.fs).2 = world.fs :=
    reads_readFile env.bundleRead input world.fs
  rw [hread] at hreads
  subst hreads
  cases r with
  | error e => exact .files_failed hread (.refused _) (h.unchanged hsub)
  | ok bundle =>
  have hfile : world.fs input = some bundle := by
    unfold readFile at hread
    split at hread
    · cases hread
    · exact okOr_eq_ok.mp (congrArg Prod.fst hread)
  refine .of_files hread ?_
  -- the passphrase opens it
  cases hopen : authenticate platform bundle passphrase with
  | error e =>
      have hrefused : MeissnerSeal.importBundle platform env.imports (v.session path)
        bundle passphrase
          world.fs = (.error e, world.fs) := by
        rw [MeissnerSeal.importBundle, FsM.bind_apply, FsM.lift, hopen]
      exact .files_failed hrefused (.refused _) (h.unchanged hsub)
  | ok items =>
  have hunsealed := h.of_authenticate hinput hbundle hfile hopen
  -- the loop adds its items
  have hcount := authenticate_length_le hopen
  have hfresh : env.imports.Fresh m items.length :=
    ImportEnv.fresh_of_nodup (h.keys path password m hdesk) hcount hnodup
  obtain ⟨ids, fs', bytes', m', hfs', hstored', hlen, hids, hcases⟩ :=
    hstored.importLoop_retracts hfs rfl hfresh
  have himport : MeissnerSeal.importBundle platform env.imports (v.session path) bundle passphrase
      world.fs = importLoop platform env.imports (v.session path) [] items world.fs := by
    rw [MeissnerSeal.importBundle, FsM.bind_apply, FsM.lift, hopen]
  have hleaves : ∀ p, Outside path p → fs' p = world.fs p := by
    intro p hp
    have hkeep := leaves_importBundle platform (v.session path)
      env.imports bundle passphrase hp world.fs
    rw [himport] at hkeep
    obtain ⟨hloop, -, -⟩ | ⟨⟨e, hloop⟩, -⟩ := hcases
    · rw [hloop] at hkeep
      exact hkeep
    · rw [hloop] at hkeep
      exact hkeep
  have hretracts : m.Retracts (ids.zip items) m' := by
    obtain ⟨-, -, hextends⟩ | ⟨-, hretracts⟩ := hcases
    · exact hextends.retracts
    · exact hretracts
  -- what the loop returns of its ids is how the desk's draws begin
  have hdrawn : ((List.range items.length).filterMap env.imports.idAt).take ids.length = ids :=
    take_filterMap_range hids hlen
  have hsurvives : (desk.set path (.vault password m')).Survives platform secrets
      (drawn ++ (List.range maxExportItemCount).filterMap env.imports.idAt) fs' := by
    refine h.update hname hleaves hfs' ⟨v, hpassword, hstored'⟩ hsecret ?_ hsub
    intro _ _ hvault id hid
    cases hvault
    rw [hretracts.keys_eq, List.mem_append] at hid
    obtain hold | hnew := hid
    · exact hsub (h.keys path password m hdesk id hold)
    · refine List.mem_append_right _ ?_
      obtain ⟨⟨id, item⟩, hpair, rfl⟩ := List.mem_map.mp hnew
      have hmem := List.of_mem_zip hpair |>.1
      rw [← hdrawn] at hmem
      obtain ⟨i, hi, hdraw⟩ := List.mem_filterMap.mp (List.mem_of_mem_take hmem)
      rw [List.mem_range] at hi
      exact List.mem_filterMap.mpr ⟨i, List.mem_range.mpr (hi.trans_le hcount), hdraw⟩
  obtain ⟨hloop, hall, hextends⟩ | ⟨⟨e, hloop⟩, -⟩ := hcases
  · have hle := List.length_filterMap_le env.imports.idAt (List.range items.length)
    rw [List.length_range] at hle
    rw [List.take_of_length_le (hall ▸ hle)] at hdrawn
    refine .of_files (himport.trans hloop) (.prints hroom (printIds_eq ids) ?_ hsurvives)
    simp only [Desk.exec, hopened, hunsealed, hdrawn]
    rw [insertAll_of_extends hextends]
  · refine .files_failed (himport.trans hloop)
      (.interrupted ids.length hopened hunsealed ?_) hsurvives
    rw [List.zip, List.take_zipWith, hdrawn]
    show m.Retracts (ids.zip (items.take ids.length)) m'
    rw [zip_take_length]
    exact hretracts

/-- Whatever fails around it, a run of a request ends in what
may come of it. -/
theorem Desk.Survives.ends {request : Request} (h : desk.Survives platform secrets drawn world.fs)
    (hroom : world.room = none) (hnamed : ∀ path ∈ request.paths, ¬ TmpName path)
    (hsecrets : request.secrets ⊆ secrets) (hdraws : request.DrawnBy env)
    (hapart : request.Apart platform secrets world.fs)
    (hnodup : (drawn ++ request.drawn).Nodup) :
    Ends platform secrets desk request (drawn ++ request.drawn)
      (request.perform platform env) world := by
  cases request with
  | init path shown password confirm =>
      rw [Request.drawn, List.append_nil]
      exact ends_init h (hnamed path List.mem_cons_self) hroom (hsecrets List.mem_cons_self)
  | add path password item id =>
      obtain rfl := hdraws
      exact ends_add h (hnamed path List.mem_cons_self) hroom hapart hnodup
  | list path password =>
      rw [Request.drawn, List.append_nil]
      exact ends_list h (hnamed path List.mem_cons_self) hroom hapart
  | get path password id =>
      rw [Request.drawn, List.append_nil]
      exact ends_get h (hnamed path List.mem_cons_self) hroom hapart
  | «export» path password passphrase output shown =>
      rw [Request.drawn, List.append_nil]
      exact ends_export h (hnamed path List.mem_cons_self)
        (hnamed output (List.mem_cons_of_mem _ List.mem_cons_self)) hroom
        (hsecrets List.mem_cons_self) hapart
  | «import» path password passphrase input ids =>
      obtain rfl := hdraws
      exact ends_import h (hnamed path List.mem_cons_self)
        (hnamed input (List.mem_cons_of_mem _ List.mem_cons_self)) hroom hapart.1 hapart.2 hnodup
  | lock =>
      rw [Request.drawn, List.append_nil]
      exact .prints hroom rfl rfl h

end Requests

end MeissnerSeal.Cli
