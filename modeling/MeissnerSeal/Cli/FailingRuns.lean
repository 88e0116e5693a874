/-
Any sequence of runs of the program in which anything may fail.

# Explained

Each run ends in what may come of its request, at the desk the runs before it
have come to, and the files left are that desk's but for the remains of failed
runs (`runs_survive_failures`). There is no other assumption on what fails, or
when: reads, writes, syncs, renames, removals and draws may each fail in every
run.

# What the user is told

A run that reports an item added has added it for good: every later `get` that
succeeds prints the secret, and `get` succeeds as long as its own reads do
(`added_is_kept`).
-/
import MeissnerSeal.Cli.DeskFailures
import MeissnerSeal.Cli.Confined

namespace MeissnerSeal.Cli

open ByteCodec ExceptRules

variable {Name : Type} {platform : Platform} {desk desk' : Desk} {fs : Fs} {path : Path}
  {known : List Bytes} {seen : List ItemId} {request : Request} {outcome : Outcome}

-- ===================================================================== steps

/-- The ids a run draws. -/
def Invocation.drawn (invocation : Invocation Name) : List ItemId :=
  match invocation.request with
  | .ok request => request.drawn
  | .error _ => []

/-- The passwords and passphrases under which a run seals a new file. -/
def Invocation.secrets (invocation : Invocation Name) : List Bytes :=
  match invocation.request with
  | .ok request => request.secrets
  | .error _ => []

/-- A run names no temporary file of the program. -/
def Invocation.Named (invocation : Invocation Name) : Prop :=
  ∀ request, invocation.request = .ok request → ∀ path ∈ request.paths, ¬ TmpName path

/-- No password and no passphrase of a run opens what another of
these has sealed. -/
def Invocation.Apart (platform : Platform) (secrets : List Bytes) (fs : Fs)
    (invocation : Invocation Name) : Prop :=
  ∀ request, invocation.request = .ok request → request.Apart platform secrets fs

/-- Nor of any of several, each where the ones before it have
left the files. -/
def ApartRuns (platform : Platform) (secrets : List Bytes) (fs : Fs) :
    List (Invocation Name) → Prop
  | [] => True
  | invocation :: rest => invocation.Apart platform secrets fs
      ∧ ApartRuns platform secrets (invocation.run platform fs).2 rest

/-- What may come of requests, one after the other. -/
inductive Desk.MayAnswerAll : Desk → List (Res Request) → List Outcome → Desk → Prop
  | nil (desk : Desk) : MayAnswerAll desk [] [] desk
  /-- A run that asks for nothing. -/
  | idle {desk desk' : Desk} {requests : List (Res Request)} {outcomes : List Outcome}
      (e : CoreError) (hrest : MayAnswerAll desk requests outcomes desk') :
      MayAnswerAll desk (.error e :: requests) (.failed :: outcomes) desk'
  | cons {desk desk₁ desk' : Desk} {request : Request} {requests : List (Res Request)}
      {outcome : Outcome} {outcomes : List Outcome} (hfirst : desk.MayAnswer request outcome desk₁)
      (hrest : MayAnswerAll desk₁ requests outcomes desk') :
      MayAnswerAll desk (.ok request :: requests) (outcome :: outcomes) desk'

/-- The ids of a run's request are those it draws. -/
theorem Invocation.request_drawnBy {invocation : Invocation Name}
    (h : invocation.request = .ok request) : request.DrawnBy invocation.env := by
  unfold Invocation.request at h
  cases hcommand : invocation.command with
  | init path =>
      simp only [hcommand, VaultCommand.request, bind_eq_ok, pure_eq_ok, Except.ok.injEq] at h
      obtain ⟨_, -, _, -, rfl⟩ := h
      trivial
  | add label kind vault =>
      simp only [hcommand, VaultCommand.request, bind_eq_ok, pure_eq_ok, Except.ok.injEq] at h
      obtain ⟨_, -, _, -, _, -, rfl⟩ := h
      rfl
  | list vault =>
      simp only [hcommand, VaultCommand.request, bind_eq_ok, pure_eq_ok, Except.ok.injEq] at h
      obtain ⟨_, -, rfl⟩ := h
      trivial
  | get itemId vault =>
      simp only [hcommand, VaultCommand.request, bind_eq_ok, pure_eq_ok, Except.ok.injEq] at h
      obtain ⟨_, -, _, -, rfl⟩ := h
      trivial
  | «export» output vault =>
      simp only [hcommand, VaultCommand.request, bind_eq_ok, pure_eq_ok, Except.ok.injEq] at h
      obtain ⟨_, -, _, -, rfl⟩ := h
      trivial
  | «import» input vault =>
      simp only [hcommand, VaultCommand.request, bind_eq_ok, pure_eq_ok, Except.ok.injEq] at h
      obtain ⟨_, -, _, -, rfl⟩ := h
      rfl
  | lock =>
      simp only [hcommand, VaultCommand.request, pure_eq_ok, Except.ok.injEq] at h
      subst h
      trivial

/-- A run is its request, with what its prompts have left of the input. -/
theorem Invocation.run_eq (platform : Platform) (invocation : Invocation Name) (fs : Fs) :
    ∃ stdin, invocation.run platform fs
      = (⟨(performed platform invocation.env invocation.request ⟨fs, stdin, [], none⟩).1.isOk,
          (performed platform invocation.env invocation.request ⟨fs, stdin, [], none⟩).2.stdout⟩,
        (performed platform invocation.env invocation.request ⟨fs, stdin, [], none⟩).2.fs) := by
  obtain ⟨stdin, hrun⟩ := @run_eq_perform _ platform invocation.env invocation.names
    invocation.command ⟨fs, invocation.stdin, [], none⟩
  refine ⟨stdin, ?_⟩
  unfold Invocation.run runProcess
  rw [hrun]
  rfl

/-- A run, from files of the desk. -/
theorem Desk.Survives.run_step (h : desk.Survives platform known seen fs)
    {invocation : Invocation Name}
    (hnamed : invocation.Named) (hsecrets : invocation.secrets ⊆ known)
    (hnodup : (seen ++ invocation.drawn).Nodup)
    (hapart : invocation.Apart platform known fs) :
    ∃ desk', desk'.Survives platform known (seen ++ invocation.drawn) (invocation.run platform fs).2
      ∧ Desk.MayAnswerAll desk [invocation.request] [(invocation.run platform fs).1] desk' := by
  obtain ⟨stdin, hrun⟩ := invocation.run_eq platform fs
  unfold Invocation.drawn at hnodup ⊢
  unfold Invocation.secrets at hsecrets
  rw [hrun]
  cases hreq : invocation.request with
  | error e =>
      refine ⟨desk, ?_, .idle e (.nil desk)⟩
      rw [List.append_nil]
      exact h
  | ok request =>
      rw [hreq] at hnodup hsecrets
      have hends : Ends platform known desk request (seen ++ request.drawn)
          (request.perform platform invocation.env) ⟨fs, stdin, [], none⟩ :=
        Desk.Survives.ends h rfl (hnamed request hreq) hsecrets (Invocation.request_drawnBy hreq)
          (hapart request hreq) hnodup
      obtain ⟨outcome, desk', fs', hworld, hok, hanswer, hsurvives⟩ := hends
      have houtcome : Outcome.mk
          (performed platform invocation.env (.ok request) ⟨fs, stdin, [], none⟩).1.isOk
          (performed platform invocation.env (.ok request) ⟨fs, stdin, [], none⟩).2.stdout
            = outcome := by
        rw [performed, hok, hworld, List.nil_append]
      have hfiles : (performed platform invocation.env (.ok request) ⟨fs, stdin, [], none⟩).2.fs
          = fs' := by
        rw [performed, hworld]
      rw [houtcome, hfiles]
      exact ⟨desk', hsurvives, .cons hanswer (.nil desk')⟩

-- ====================================================================== runs

theorem runAll_append (platform : Platform) (first rest : List (Invocation Name)) (fs : Fs) :
    (runAll platform (first ++ rest) fs).2
      = (runAll platform rest (runAll platform first fs).2).2 := by
  induction first generalizing fs with
  | nil => rfl
  | cons invocation first ih => exact ih (invocation.run platform fs).2

theorem apartRuns_append {first rest : List (Invocation Name)} :
    ApartRuns platform known fs (first ++ rest)
      ↔ ApartRuns platform known fs first ∧ ApartRuns platform known
        (runAll platform first fs).2 rest := by
  induction first generalizing fs with
  | nil => exact (and_iff_right trivial).symm
  | cons invocation first ih =>
      show _ ∧ _ ↔ (_ ∧ _) ∧ _
      rw [and_assoc]
      exact and_congr_right fun _ => ih

theorem apartRuns_of_forall {invocations : List (Invocation Name)}
    (h : ∀ invocation ∈ invocations, ∀ fs, invocation.Apart platform known fs) (fs : Fs) :
    ApartRuns platform known fs invocations := by
  induction invocations generalizing fs with
  | nil => trivial
  | cons invocation rest ih =>
      obtain ⟨hfirst, hrest⟩ := List.forall_mem_cons.mp h
      exact ⟨hfirst fs, ih hrest _⟩

/-- What may come of one request, and of those behind it. -/
theorem Desk.MayAnswerAll.append {desk desk₁ desk' : Desk} {request : Res Request}
    {requests : List (Res Request)} {outcome : Outcome} {outcomes : List Outcome}
    (hfirst : Desk.MayAnswerAll desk [request] [outcome] desk₁)
    (hrest : Desk.MayAnswerAll desk₁ requests outcomes desk') :
    Desk.MayAnswerAll desk (request :: requests) (outcome :: outcomes) desk' := by
  cases hfirst with
  | idle e hnil =>
      cases hnil
      exact .idle e hrest
  | cons hanswer hnil =>
      cases hnil
      exact .cons hanswer hrest

/-- Runs, from files of the desk. -/
theorem Desk.Survives.run_all (h : desk.Survives platform known seen fs)
    {invocations : List (Invocation Name)} (hnamed : ∀ invocation ∈ invocations, invocation.Named)
    (hsecrets : ∀ invocation ∈ invocations, invocation.secrets ⊆ known)
    (hnodup : (seen ++ invocations.flatMap Invocation.drawn).Nodup)
    (hapart : ApartRuns platform known fs invocations) :
    ∃ desk', desk'.Survives platform known (seen ++ invocations.flatMap Invocation.drawn)
        (runAll platform invocations fs).2
      ∧ Desk.MayAnswerAll desk (invocations.map Invocation.request)
        (runAll platform invocations fs).1 desk' := by
  induction invocations generalizing desk seen fs with
  | nil =>
      refine ⟨desk, ?_, .nil desk⟩
      rw [List.flatMap_nil, List.append_nil]
      exact h
  | cons invocation rest ih =>
      obtain ⟨hfirst, hrest⟩ := List.forall_mem_cons.mp hnamed
      obtain ⟨hsecret, hsecrets⟩ := List.forall_mem_cons.mp hsecrets
      rw [List.flatMap_cons, ← List.append_assoc] at hnodup ⊢
      obtain ⟨desk₁, hsurvives, hanswer⟩ := h.run_step hfirst hsecret
        (List.Nodup.of_append_left hnodup) hapart.1
      obtain ⟨desk', hfinal, hanswers⟩ := ih hsurvives hrest hsecrets hnodup hapart.2
      exact ⟨desk', hfinal, hanswer.append hanswers⟩

theorem Desk.survives_empty : Desk.empty.Survives platform known [] noFiles where
  files _ _ _ hbytes := by cases hbytes
  named _ _ hdesk := by cases hdesk
  sealed _ _ hdesk := by cases hdesk
  keys _ _ _ hdesk := by cases hdesk

/-- Any sequence of runs, from no files and with whatever failures, is
explained by the desk: what each run returns and prints may come of its
request there, and what is then on disk are the vaults and bundles of the desk
come to, but for the remains of failed runs. -/
theorem runs_survive_failures (platform : Platform) (invocations : List (Invocation Name))
    (hnamed : ∀ invocation ∈ invocations, invocation.Named)
    (hnodup : (invocations.flatMap Invocation.drawn).Nodup)
    (hapart : ApartRuns platform (invocations.flatMap Invocation.secrets) noFiles invocations) :
    ∃ desk : Desk, Desk.MayAnswerAll Desk.empty (invocations.map Invocation.request)
        (runAll platform invocations noFiles).1 desk
      ∧ desk.Survives platform (invocations.flatMap Invocation.secrets)
        (invocations.flatMap Invocation.drawn) (runAll platform invocations noFiles).2 := by
  have hsecrets : ∀ invocation ∈ invocations,
      invocation.secrets ⊆ invocations.flatMap Invocation.secrets :=
    fun invocation hmem secret hsecret => List.mem_flatMap.mpr ⟨invocation, hmem, hsecret⟩
  obtain ⟨desk, hsurvives, hanswers⟩ := Desk.survives_empty.run_all hnamed hsecrets
    (by rw [List.nil_append]; exact hnodup) hapart
  rw [List.nil_append] at hsurvives
  exact ⟨desk, hanswers, hsurvives⟩

-- ================================================================ items kept

/-- A vault of the desk holds the item. -/
def Desk.Has (desk : Desk) (path : Path) (password : Bytes) (id : ItemId)
    (item : PlainItem) : Prop :=
  ∃ m, desk path = some (.vault password m) ∧ m.status id = some (some item)

section Kept

variable {password own : Bytes} {id : ItemId} {item : PlainItem} {p : Path} {m m' : ItemMap}

/-- A file where there was none. -/
theorem Desk.Has.set_new (h : desk.Has path password id item) {artifact : Artifact}
    (hnone : (desk p).isNone) : (desk.set p artifact).Has path password id item := by
  obtain ⟨m, hdesk, hstatus⟩ := h
  refine ⟨m, ?_, hstatus⟩
  have hne : path ≠ p := by
    rintro rfl
    rw [hdesk] at hnone
    cases hnone
  rw [Desk.set, if_neg hne, hdesk]

/-- A vault with more in it. -/
theorem Desk.Has.set_vault (h : desk.Has path password id item)
    (hopened : desk.opened p own = some m)
    (hmore : ∀ content, m.status id = some content → m'.status id = some content) :
    (desk.set p (.vault own m')).Has path password id item := by
  obtain ⟨m₀, hdesk, hstatus⟩ := h
  unfold Desk.Has Desk.set
  by_cases heq : path = p
  · subst heq
    have hvault := (Desk.opened_eq_some.mp hopened).1
    rw [hdesk, Option.some.injEq, Artifact.vault.injEq] at hvault
    obtain ⟨rfl, rfl⟩ := hvault
    exact ⟨m', if_pos rfl, hmore _ hstatus⟩
  · exact ⟨m₀, by rw [if_neg heq, hdesk], hstatus⟩

theorem status_insertAll {content : Option PlainItem} (pairs : List (ItemId × PlainItem))
    (h : m.status id = some content) : (insertAll m pairs).status id = some content := by
  induction pairs generalizing m with
  | nil => exact h
  | cons pair pairs ih => exact ih (TombstoneMap.status_insert_of_some h)

/-- No request takes an item away. -/
theorem Desk.Has.exec (h : desk.Has path password id item) (request : Request) :
    (desk.exec request).2.Has path password id item := by
  cases request with
  | init p shown own confirm =>
      simp only [Desk.exec]
      split
      case isTrue hfree => exact h.set_new hfree.2.2
      case isFalse => exact h
  | add p own new drawn =>
      simp only [Desk.exec]
      split
      case h_1 m newId hopened =>
        split
        case isTrue hfits => exact h.set_vault hopened fun _ => TombstoneMap.status_insert_of_some
        case isFalse hfits => exact h
      case h_2 => exact h
  | list p own =>
      rw [Desk.exec_list_desk]
      exact h
  | get p own wanted =>
      simp only [Desk.exec]
      split
      case h_1 => split <;> exact h
      case h_2 => exact h
  | «export» p own passphrase output shown =>
      simp only [Desk.exec]
      split
      case h_1 =>
        split
        case isTrue hfree => exact h.set_new hfree.2.2
        case isFalse => exact h
      case h_2 => exact h
  | «import» p own passphrase input ids =>
      simp only [Desk.exec]
      split
      case h_1 m items hopened hunsealed => exact h.set_vault hopened fun _ => status_insertAll _
      case h_2 => exact h
  | lock => exact h

/-- Whatever comes of it. -/
theorem Desk.Has.answer (h : desk.Has path password id item)
    (hanswer : desk.MayAnswer request outcome desk') : desk'.Has path password id item := by
  cases hanswer with
  | answered request => exact h.exec request
  | refused request => exact h
  | unconfirmed request => exact h.exec request
  | interrupted k hopened hunsealed hretracts =>
      exact h.set_vault hopened fun _ => hretracts.status_of_mem

/-- And of any number of them. -/
theorem Desk.Has.answerAll {requests : List (Res Request)} {outcomes : List Outcome}
    (h : desk.Has path password id item)
    (hanswers : Desk.MayAnswerAll desk requests outcomes desk') :
    desk'.Has path password id item := by
  induction hanswers with
  | nil => exact h
  | idle e hrest ih => exact ih h
  | cons hfirst hrest ih => exact ih (h.answer hfirst)

-- ==================================================================== reads

/-- What `get` prints of an item. -/
def secretText (item : PlainItem) : Bytes :=
  lineOf "NOTE: secret printed to stdout" ++ item.secret ++ utf8 "\n"

/-- A `get` that the desk grants. -/
theorem Desk.exec_get_ok :
    (desk.exec (.get path own id)).1.ok = true
      ↔ ∃ m item, desk.opened path own = some m ∧ m.status id = some (some item)
        ∧ item.WithinLimits ∧ (desk.exec (.get path own id)).1 = .success (secretText item) := by
  constructor
  · intro hok
    simp only [Desk.exec] at hok ⊢
    split at hok
    case h_2 => exact absurd hok Bool.false_ne_true
    case h_1 item hitem =>
      split at hok
      case isFalse => exact absurd hok Bool.false_ne_true
      case isTrue hlimits =>
        obtain ⟨m, hopened, hstatus⟩ := Option.bind_eq_some_iff.mp hitem
        refine ⟨m, item, hopened, hstatus, hlimits, ?_⟩
        exact congrArg Prod.fst (if_pos hlimits)
  · rintro ⟨m, item, -, -, -, hexec⟩
    rw [hexec]
    rfl

/-- A `get` succeeds when its two reads do and the desk grants it, and prints
then what the desk does. -/
theorem Desk.Survives.get_ok_iff {env : RunEnv Name} {world : World}
    (h : desk.Survives platform known seen world.fs) (hname : ¬ TmpName path)
    (hroom : world.room = none)
    (hapart : VaultApart platform known world.fs path own) :
    ((Request.get path own id).perform platform env world).1.isOk = true
      ↔ env.unlockIo.read = false ∧ env.readIo.read = false
        ∧ (desk.exec (.get path own id)).1.ok = true := by
  constructor
  · intro hok
    have hreads := reads_unlock platform env.unlockIo path own world.fs
    rcases hrun : unlock platform env.unlockIo path own world.fs with ⟨r, fs'⟩
    rw [hrun] at hreads
    subst hreads
    rw [Request.perform, CliM.files_bind, hrun] at hok
    cases r with
    | error e => exact absurd hok Bool.false_ne_true
    | ok session =>
    obtain ⟨-, hunlock, -⟩ := unlock_eq_ok.mp (congrArg Prod.fst hrun)
    obtain ⟨m, v, bytes, hopened, -, rfl, hfs, hstored⟩ :=
      h.of_unlock hname hapart (congrArg Prod.fst hrun)
    have hfs' : world.fs (v.session path).path = some bytes := hfs
    simp only [CliM.files_bind] at hok
    rcases hview : withItem platform env.readIo (v.session path) id Except.ok world.fs with ⟨r, fs'⟩
    rw [hview] at hok
    cases r with
    | error e => exact absurd hok Bool.false_ne_true
    | ok view =>
    obtain ⟨hread, item, hstatus, hlimits, -⟩ :=
      hstored.of_withItem hfs' rfl (congrArg Prod.fst hview)
    refine ⟨hunlock, hread, Desk.exec_get_ok.mpr ⟨m, item, hopened, hstatus, hlimits, ?_⟩⟩
    simp only [Desk.exec, hopened, Option.bind_some, hstatus, if_pos hlimits]
    rfl
  · rintro ⟨hunlock, hread, hgranted⟩
    obtain ⟨m, item, hopened, hstatus, hlimits, -⟩ := Desk.exec_get_ok.mp hgranted
    obtain ⟨hdesk, hle⟩ := Desk.opened_eq_some.mp hopened
    obtain ⟨bytes, hfs, v, rfl, hstored⟩ := h.present hdesk
    have hopen := hstored.unlock_eq hfs env.unlockIo hunlock
    rw [if_pos hle] at hopen
    have hfs' : world.fs (v.session path).path = some bytes := hfs
    have hview := hstored.withItem_of_live Except.ok hfs' rfl hread hstatus hlimits
    rw [Request.perform, files_of_ok hopen, files_of_ok hview]
    simp only [printLine, CliM.bind_apply, printBytes, hroom]
    rfl

/-- An `add` that says so has added the item. -/
theorem Desk.has_of_added (hnew : ∀ m, desk path = some (.vault password m) → id ∉ m.keys)
    (hanswer : desk.MayAnswer (.add path password item (some id)) outcome desk')
    (hok : outcome.ok = true) : desk'.Has path password id item := by
  cases hanswer with
  | refused => exact absurd hok Bool.false_ne_true
  | unconfirmed => exact absurd hok Bool.false_ne_true
  | answered =>
      simp only [Desk.exec] at hok ⊢
      split at hok
      case h_2 => exact absurd hok Bool.false_ne_true
      case h_1 m newId hopened hid =>
        split at hok
        case isFalse => exact absurd hok Bool.false_ne_true
        case isTrue hfits =>
          rw [if_pos hfits]
          obtain rfl := Option.some.inj hid
          have hfresh := hnew m (Desk.opened_eq_some.mp hopened).1
          refine ⟨m.insert id item, ?_, ?_⟩
          · exact if_pos rfl
          rw [TombstoneMap.insert_of_not_mem item hfresh, TombstoneMap.status_push, if_pos rfl]

/-- Where the desk has an item, a `get` of it is granted to the vault's
password, if the vault is not over the ceiling nor the item over the limits;
and what it prints then is the item's secret. -/
theorem Desk.Has.exec_get (h : desk.Has path password id item)
    (hsurvives : desk.Survives platform known seen fs) :
    ((desk.exec (.get path own id)).1.ok = true
        ↔ own = password ∧ item.WithinLimits
          ∧ ∃ bytes, fs path = some bytes ∧ bytes.length ≤ maxVaultFileLen)
      ∧ ((desk.exec (.get path own id)).1.ok = true →
        (desk.exec (.get path own id)).1 = .success (secretText item)) := by
  obtain ⟨m, hdesk, hstatus⟩ := h
  obtain ⟨bytes, hfs, v, -, hstored⟩ := hsurvives.present hdesk
  have hsame : ∀ m' item', desk.opened path own = some m' → m'.status id = some (some item') →
      own = password ∧ item' = item ∧ storedLen m ≤ maxVaultFileLen := by
    intro m' item' hopened hstatus'
    obtain ⟨hdesk', hle⟩ := Desk.opened_eq_some.mp hopened
    rw [hdesk, Option.some.injEq, Artifact.vault.injEq] at hdesk'
    obtain ⟨rfl, rfl⟩ := hdesk'
    rw [hstatus, Option.some.injEq, Option.some.injEq] at hstatus'
    exact ⟨rfl, hstatus'.symm, hle⟩
  refine ⟨⟨fun hok => ?_, ?_⟩, fun hok => ?_⟩
  · obtain ⟨m', item', hopened, hstatus', hlimits, -⟩ := Desk.exec_get_ok.mp hok
    obtain ⟨rfl, rfl, hle⟩ := hsame m' item' hopened hstatus'
    exact ⟨rfl, hlimits, bytes, hfs, hstored.length_eq.trans_le hle⟩
  · rintro ⟨rfl, hlimits, bytes', hbytes', hle⟩
    rw [hfs, Option.some.injEq] at hbytes'
    rw [← hbytes', hstored.length_eq] at hle
    have hopened := Desk.opened_eq_some.mpr ⟨hdesk, hle⟩
    refine Desk.exec_get_ok.mpr ⟨m, item, hopened, hstatus, hlimits, ?_⟩
    simp only [Desk.exec, hopened, Option.bind_some, hstatus, if_pos hlimits]
    rfl
  · obtain ⟨m', item', hopened, hstatus', -, hexec⟩ := Desk.exec_get_ok.mp hok
    obtain ⟨-, rfl, -⟩ := hsame m' item' hopened hstatus'
    exact hexec

/-- A run that reports the item added has added it, at a desk whose ids are
none the run draws. -/
theorem Desk.Survives.has_of_added_run (h : desk.Survives platform known seen fs)
    {adding : Invocation Name} (hadd : adding.request = .ok (.add path password item (some id)))
    (hnodup : (seen ++ adding.drawn).Nodup)
    (hanswer : Desk.MayAnswerAll desk [adding.request] [outcome] desk') (hok : outcome.ok = true) :
    desk'.Has path password id item := by
  have hdrawn : id ∈ adding.drawn := by
    rw [Invocation.drawn, hadd]
    exact List.mem_singleton_self id
  rw [hadd] at hanswer
  cases hanswer with
  | cons hfirst hnil =>
      cases hnil
      refine Desk.has_of_added (fun m hdesk hold => ?_) hfirst hok
      exact (List.nodup_append.mp hnodup).2.2 id
        (h.keys path password m hdesk id hold) id hdrawn rfl

/-- What a `get` of the item that succeeds has printed. -/
theorem Desk.Has.printed_of_get (h : desk.Has path password id item)
    (hsurvives : desk.Survives platform known seen fs)
    (hanswer : desk.MayAnswer (.get path own id) outcome desk') (hok : outcome.ok = true) :
    outcome.printed = secretText item := by
  cases hanswer with
  | refused => exact absurd hok Bool.false_ne_true
  | unconfirmed => exact absurd hok Bool.false_ne_true
  | answered => rw [(h.exec_get hsurvives).2 hok, Outcome.success]

end Kept

/-- An item whose `add` has reported success is kept, whatever failed before
and whatever fails after: a later `get` of its id succeeds exactly when its own
two reads do, for the password of the vault, unless the vault has grown over
the ceiling or the item is over the decoder's limits; and what it prints is the
secret that was added. -/
theorem added_is_kept (platform : Platform) (before between : List (Invocation Name))
    (adding getting : Invocation Name) {path : Path} {password own : Bytes} {item : PlainItem}
    {id : ItemId} (hadd : adding.request = .ok (.add path password item (some id)))
    (hget : getting.request = .ok (.get path own id))
    (hnamed : ∀ invocation ∈ before ++ adding :: (between ++ [getting]), invocation.Named)
    (hnodup : ((before ++ adding :: (between ++ [getting])).flatMap Invocation.drawn).Nodup)
    (hapart : ApartRuns platform
      ((before ++ adding :: (between ++ [getting])).flatMap Invocation.secrets) noFiles
      (before ++ adding :: (between ++ [getting])))
    (hok : (adding.run platform (runAll platform before noFiles).2).1.ok = true) :
    ((getting.run platform (runAll platform (before ++ adding :: between) noFiles).2).1.ok = true
        ↔ (own = password ∧ item.WithinLimits
            ∧ ∃ bytes, (runAll platform (before ++ adding :: between) noFiles).2 path = some bytes
              ∧ bytes.length ≤ maxVaultFileLen)
          ∧ getting.env.unlockIo.read = false ∧ getting.env.readIo.read = false)
      ∧ ((getting.run platform
          (runAll platform (before ++ adding :: between) noFiles).2).1.ok = true →
        (getting.run platform (runAll platform (before ++ adding :: between) noFiles).2).1.printed
          = secretText item) := by
  have hsecrets : ∀ invocation ∈ before ++ adding :: (between ++ [getting]),
      invocation.secrets
        ⊆ (before ++ adding :: (between ++ [getting])).flatMap Invocation.secrets :=
    fun invocation hmem secret hsecret => List.mem_flatMap.mpr ⟨invocation, hmem, hsecret⟩
  generalize (before ++ adding :: (between ++ [getting])).flatMap Invocation.secrets = known at *
  obtain ⟨hbefore, hafter⟩ := List.forall_mem_append.mp hnamed
  obtain ⟨hadding, hafter⟩ := List.forall_mem_cons.mp hafter
  obtain ⟨hbetween, hlast⟩ := List.forall_mem_append.mp hafter
  have hgetting := List.forall_mem_singleton.mp hlast
  obtain ⟨hsecrets₀, hsecrets⟩ := List.forall_mem_append.mp hsecrets
  obtain ⟨hsecrets₁, hsecrets⟩ := List.forall_mem_cons.mp hsecrets
  obtain ⟨hsecrets₂, hsecrets⟩ := List.forall_mem_append.mp hsecrets
  have hsecrets₃ := List.forall_mem_singleton.mp hsecrets
  obtain ⟨hapart₀, hapart₁, hapart₂⟩ := apartRuns_append.mp hapart
  obtain ⟨hapart₂, hapart₃, -⟩ := apartRuns_append.mp hapart₂
  rw [List.flatMap_append, List.flatMap_cons, List.flatMap_append, List.flatMap_singleton,
    ← List.append_assoc, ← List.append_assoc] at hnodup
  have hnodup₂ := List.Nodup.of_append_left hnodup
  have hnodup₁ := List.Nodup.of_append_left hnodup₂
  -- the desk before the add, after it, and before the get
  obtain ⟨desk₀, hsurvives₀, -⟩ := Desk.survives_empty.run_all hbefore hsecrets₀
    (by rw [List.nil_append]; exact List.Nodup.of_append_left hnodup₁) hapart₀
  rw [List.nil_append] at hsurvives₀
  obtain ⟨desk₁, hsurvives₁, hanswer₁⟩ := hsurvives₀.run_step hadding hsecrets₁ hnodup₁ hapart₁
  obtain ⟨desk₂, hsurvives₂, hanswers₂⟩ := hsurvives₁.run_all hbetween hsecrets₂ hnodup₂ hapart₂
  have hhas₁ : desk₁.Has path password id item :=
    hsurvives₀.has_of_added_run hadd hnodup₁ hanswer₁ hok
  have hhas₂ := hhas₁.answerAll hanswers₂
  have hruns : (runAll platform (before ++ adding :: between) noFiles).2
      = (runAll platform between (adding.run platform (runAll platform before noFiles).2).2).2 :=
    runAll_append platform before (adding :: between) noFiles
  rw [hruns]
  generalize (runAll platform between
    (adding.run platform (runAll platform before noFiles).2).2).2 = fs at *
  obtain ⟨stdin, hrun⟩ := getting.run_eq platform fs
  rw [hget] at hrun
  constructor
  · rw [← (hhas₂.exec_get hsurvives₂).1, and_comm, and_assoc, hrun]
    exact hsurvives₂.get_ok_iff
      (hgetting _ hget path List.mem_cons_self) rfl (hapart₃ _ hget)
  · intro hsuccess
    obtain ⟨desk₃, -, hanswer₃⟩ := hsurvives₂.run_step hgetting hsecrets₃ hnodup hapart₃
    rw [hget] at hanswer₃
    cases hanswer₃ with
    | cons hanswer hnil => exact hhas₂.printed_of_get hsurvives₂ hanswer hsuccess

-- ==================================================================== samples

theorem samplePath_not_tmpName : ¬ TmpName samplePath :=
  fun htmp => absurd htmp.suffix (by decide)

/-- Under the keyed platform the passwords are apart that begin apart. -/
theorem vaultApart_of_heads {password : Bytes}
    (hheads : ∀ own ∈ known, own = password
      ∨ (resizeZero password 20).take 4 ≠ (resizeZero own 20).take 4) :
    VaultApart Platform.keyed known fs path password := by
  intro v m bytes hknown _ hstored hne
  obtain heq | hapart := hheads v.password hknown
  · exact absurd heq.symm hne
  · exact keyed_apart hstored hapart

/-- A run that cannot read its vault. -/
def unreadInvocation (command : VaultCommand Path) (typed : List String) : Invocation Path :=
  { sampleInvocation command typed with
    env := { (sampleInvocation command typed).env with unlockIo := { read := true } } }

/-- A run whose `add` fails behind its rename. -/
def unsyncedInvocation (command : VaultCommand Path) (typed : List String) : Invocation Path :=
  { sampleInvocation command typed with
    env := { (sampleInvocation command typed).env with
      add := { sampleEnv with io := { parentSync := true } } } }

/-- A vault, an `add` that is on disk and reports a failure, and someone
else's try. -/
def failingRuns : List (Invocation Path) :=
  [sampleInvocation (.init samplePath) ["correct horse", "correct horse"],
    unsyncedInvocation (.add "note" "secure-note" samplePath) ["correct horse", "hunter2"],
    sampleInvocation (.list samplePath) ["battery staple"]]

theorem runs_survive_failures_of_sample :
    ∃ desk : Desk, Desk.MayAnswerAll Desk.empty (failingRuns.map Invocation.request)
        (runAll Platform.keyed failingRuns noFiles).1 desk
      ∧ desk.Survives Platform.keyed [samplePassword] [zeroId]
        (runAll Platform.keyed failingRuns noFiles).2 := by
  refine runs_survive_failures Platform.keyed failingRuns ?_ (List.nodup_singleton zeroId) ?_
  · intro invocation hmem request hrequest path hpath
    have hsame : ∀ invocation ∈ failingRuns, ∀ request, invocation.request = .ok request →
        request.paths = [samplePath] := by
      simp only [failingRuns, List.forall_mem_cons]
      refine ⟨fun _ h => ?_, fun _ h => ?_, fun _ h => ?_, fun _ h => by cases h⟩ <;>
        obtain rfl := Except.ok.inj h <;> rfl
    rw [hsame invocation hmem request hrequest, List.mem_singleton] at hpath
    exact hpath ▸ samplePath_not_tmpName
  · refine ⟨fun _ h => ?_, fun _ h => ?_, fun _ h => ?_, trivial⟩
    · obtain rfl := Except.ok.inj h
      trivial
    · obtain rfl := Except.ok.inj h
      exact vaultApart_of_heads (by decide)
    · obtain rfl := Except.ok.inj h
      exact vaultApart_of_heads (by decide)

/-- The note of the samples. -/
def sampleNote : PlainItem := ⟨.secureNote, "note", utf8 "hunter2", []⟩

theorem sampleNote_storedLen :
    storedLen (TombstoneMap.empty.insert zeroId sampleNote) ≤ maxVaultFileLen := by
  decide +kernel

def initInvocation : Invocation Path :=
  sampleInvocation (.init samplePath) ["correct horse", "correct horse"]

def addInvocation : Invocation Path :=
  sampleInvocation (.add "note" "secure-note" samplePath) ["correct horse", "hunter2"]

def listInvocation : Invocation Path := unreadInvocation (.list samplePath) ["correct horse"]

def getInvocation : Invocation Path :=
  sampleInvocation (.get (hexId zeroId) samplePath) ["correct horse"]

theorem addInvocation_request :
    addInvocation.request = .ok (.add samplePath samplePassword sampleNote (some zeroId)) := rfl

theorem getInvocation_request :
    getInvocation.request = .ok (.get samplePath samplePassword zeroId) := by
  unfold Invocation.request getInvocation sampleInvocation
  simp only [VaultCommand.request, hexDecodeId_hexId]
  rfl

theorem addInvocation_answer : ∃ printed,
    ((Desk.empty.answer initInvocation.request).2.answer addInvocation.request).1
      = .success printed := by
  have h := sampleRuns_answers
  rw [sampleRuns_requests] at h
  simp only [Desk.answerAll] at h
  exact ⟨_, (List.cons.inj (List.cons.inj h).2).1⟩

/-- The vault and its note, and a listing that fails. -/
theorem addInvocation_added :
    (addInvocation.run Platform.keyed
        (runAll Platform.keyed [initInvocation] noFiles).2).1.ok = true
      ∧ ∃ bytes, (runAll Platform.keyed ([initInvocation] ++ addInvocation :: [listInvocation])
          noFiles).2 samplePath = some bytes ∧ bytes.length ≤ maxVaultFileLen := by
  have hquiet : QuietRuns Platform.keyed Desk.empty noFiles (sampleRuns "hunter2") :=
    sampleRuns_quiet rfl
  have hinit : initInvocation.Quiet Platform.keyed Desk.empty noFiles := hquiet.1
  have hadd : addInvocation.Quiet Platform.keyed (Desk.empty.answer initInvocation.request).2
      (initInvocation.run Platform.keyed noFiles).2 := hquiet.2.1
  obtain ⟨-, hholds⟩ := Desk.holds_empty.run_step Platform.keyed_total hinit
  obtain ⟨hanswer, hholds⟩ := hholds.run_step Platform.keyed_total hadd
  simp only [runAll, List.cons_append, List.nil_append]
  constructor
  · obtain ⟨printed, hprinted⟩ := addInvocation_answer
    rw [hanswer, hprinted, Outcome.success]
  · have hdesk : ((Desk.empty.answer initInvocation.request).2.answer addInvocation.request).2
        samplePath = some
          (.vault samplePassword (TombstoneMap.empty.insert zeroId sampleNote)) := rfl
    have hspares : ∀ request, listInvocation.request = .ok request → request.Spares samplePath := by
      intro request hrequest
      obtain rfl := Except.ok.inj hrequest
      trivial
    obtain ⟨bytes, hfs, v, -, hstored⟩ := hholds.present samplePath _ hdesk
    refine ⟨bytes, (runProcess_spares hspares none _).trans hfs, ?_⟩
    rw [hstored.length_eq]
    exact sampleNote_storedLen

/-- The vault, its note, the listing that fails, and the note got. -/
def keptRuns : List (Invocation Path) :=
  [initInvocation] ++ addInvocation :: ([listInvocation] ++ [getInvocation])

theorem keptRuns_requests : keptRuns.map Invocation.request
    = [.ok (.init samplePath "personal.msv" samplePassword samplePassword),
      .ok (.add samplePath samplePassword sampleNote (some zeroId)),
      .ok (.list samplePath samplePassword), .ok (.get samplePath samplePassword zeroId)] := by
  simp only [keptRuns, List.cons_append, List.nil_append, List.map_cons, getInvocation_request]
  rfl

theorem request_of_mem_keptRuns {invocation : Invocation Path} {request : Request}
    (hmem : invocation ∈ keptRuns) (h : invocation.request = .ok request) :
    request = .init samplePath "personal.msv" samplePassword samplePassword
      ∨ request = .add samplePath samplePassword sampleNote (some zeroId)
      ∨ request = .list samplePath samplePassword
      ∨ request = .get samplePath samplePassword zeroId := by
  have hrequests := List.mem_map_of_mem (f := Invocation.request) hmem
  rw [keptRuns_requests, h] at hrequests
  simpa only [List.mem_cons, List.not_mem_nil, or_false, Except.ok.injEq] using hrequests

theorem keptRuns_named : ∀ invocation ∈ keptRuns, invocation.Named := by
  intro invocation hmem request hrequest path hpath
  obtain rfl | rfl | rfl | rfl := request_of_mem_keptRuns hmem hrequest <;>
    exact List.mem_singleton.mp hpath ▸ samplePath_not_tmpName

theorem keptRuns_drawn : keptRuns.flatMap Invocation.drawn = [zeroId] := by
  simp only [keptRuns, List.cons_append, List.nil_append, List.flatMap_cons, List.flatMap_nil,
    Invocation.drawn, getInvocation_request]
  rfl

theorem keptRuns_secrets : keptRuns.flatMap Invocation.secrets = [samplePassword] := by
  simp only [keptRuns, List.cons_append, List.nil_append, List.flatMap_cons, List.flatMap_nil,
    Invocation.secrets, getInvocation_request]
  rfl

theorem keptRuns_apart :
    ApartRuns Platform.keyed (keptRuns.flatMap Invocation.secrets) noFiles keptRuns := by
  rw [keptRuns_secrets]
  refine apartRuns_of_forall (fun invocation hmem fs request hrequest => ?_) noFiles
  have hvault : VaultApart Platform.keyed [samplePassword] fs samplePath samplePassword :=
    vaultApart_of_heads fun own hown => .inl (List.mem_singleton.mp hown)
  obtain rfl | rfl | rfl | rfl := request_of_mem_keptRuns hmem hrequest
  · trivial
  · exact hvault
  · exact hvault
  · exact hvault

/-- The note is there for the `get`, behind the listing that failed. -/
theorem added_is_kept_of_sample :
    (getInvocation.run Platform.keyed
        (runAll Platform.keyed ([initInvocation] ++ addInvocation :: [listInvocation])
          noFiles).2).1.ok
          = true
      ∧ (getInvocation.run Platform.keyed
        (runAll Platform.keyed ([initInvocation] ++ addInvocation :: [listInvocation])
          noFiles).2).1.printed
          = secretText sampleNote := by
  obtain ⟨hok, hstored⟩ := addInvocation_added
  have hnodup : (keptRuns.flatMap Invocation.drawn).Nodup :=
    keptRuns_drawn ▸ List.nodup_singleton zeroId
  obtain ⟨hgets, hprints⟩ := added_is_kept Platform.keyed [initInvocation] [listInvocation]
    addInvocation getInvocation addInvocation_request getInvocation_request keptRuns_named hnodup
    keptRuns_apart hok
  have hsucceeds := hgets.mpr ⟨⟨rfl, by decide +kernel, hstored⟩, rfl, rfl⟩
  exact ⟨hsucceeds, hprints hsucceeds⟩

end MeissnerSeal.Cli
