/-
Every sequence of runs of the program, each in a process of its own, is a
sequence of requests at the desk.

# Runs

Nothing but files goes from one run to the next. The program's runs and the
desk's answers keep step: after each, the files are those of the desk
(`Desk.Holds`), and what a run returns and prints is what the desk answers.
-/
import MeissnerSeal.Cli.DeskRefinement

namespace MeissnerSeal.Cli

open ByteCodec ExceptRules

variable {Name : Type}

/-- One run: its command line, what it reads from standard input, and
what it meets. -/
structure Invocation (Name : Type) where
  names : PathNames Name
  env : RunEnv Name
  command : VaultCommand Name
  stdin : Bytes

/-- What the run asks of the desk. -/
def Invocation.request (invocation : Invocation Name) : Res Request :=
  invocation.command.request invocation.names invocation.env invocation.stdin

/-- The run, with a standard output that takes everything. -/
def Invocation.run (platform : Platform) (invocation : Invocation Name) (fs : Fs) : Outcome × Fs :=
  runProcess platform invocation.names invocation.env invocation.command invocation.stdin none fs

/-- Runs one after the other. -/
def runAll (platform : Platform) : List (Invocation Name) → Fs → List Outcome × Fs
  | [], fs => ([], fs)
  | invocation :: rest, fs =>
      let (outcome, fs) := invocation.run platform fs
      let (outcomes, fs) := runAll platform rest fs
      (outcome :: outcomes, fs)

/-- Answers one after the other. -/
def Desk.answerAll (desk : Desk) : List (Res Request) → List Outcome × Desk
  | [] => ([], desk)
  | request :: rest =>
      let (outcome, desk) := desk.answer request
      let (outcomes, desk) := desk.answerAll rest
      (outcome :: outcomes, desk)

/-- Nothing fails around a run. -/
def Invocation.Quiet (platform : Platform) (desk : Desk) (fs : Fs) (invocation : Invocation Name) :
    Prop :=
  ∀ request, invocation.request = .ok request → request.Quiet platform invocation.env desk fs

/-- Nor around any of several, each where the ones before it have
left the files. -/
def QuietRuns (platform : Platform) (desk : Desk) (fs : Fs) : List (Invocation Name) → Prop
  | [] => True
  | invocation :: rest => invocation.Quiet platform desk fs
      ∧ QuietRuns platform (desk.answer invocation.request).2 (invocation.run platform fs).2 rest

variable {platform : Platform} {desk : Desk} {fs : Fs}

theorem Desk.holds_empty : Desk.empty.Holds platform noFiles where
  absent _ _ := rfl
  present _ _ h := nomatch h

/-- One run is one answer. -/
theorem Desk.Holds.run_step (h : desk.Holds platform fs) (htotal : platform.kdf.Total)
    {invocation : Invocation Name} (hquiet : invocation.Quiet platform desk fs) :
    (invocation.run platform fs).1 = (desk.answer invocation.request).1
      ∧ (desk.answer invocation.request).2.Holds platform (invocation.run platform fs).2 := by
  obtain ⟨stdin, hrun⟩ := @run_eq_perform _ platform invocation.env invocation.names
    invocation.command ⟨fs, invocation.stdin, [], none⟩
  have hrequest : invocation.command.request invocation.names invocation.env invocation.stdin
      = invocation.request := rfl
  unfold Invocation.run runProcess
  rw [hrun, hrequest]
  cases hreq : invocation.request with
  | error e => exact ⟨rfl, h⟩
  | ok request =>
      have hanswers : Answers platform (request.perform platform invocation.env)
          ⟨fs, stdin, [], none⟩ (desk.exec request) :=
            Desk.Holds.answers h htotal rfl (hquiet request hreq)
      obtain ⟨fs', hworld, hok, hholds⟩ := hanswers
      have houtcome : (⟨(request.perform platform invocation.env ⟨fs, stdin, [], none⟩).1.isOk,
          (request.perform platform invocation.env ⟨fs, stdin, [], none⟩).2.stdout⟩ : Outcome)
          = (desk.exec request).1 := by
        rw [hok, hworld, List.nil_append]
      have hfiles : (request.perform platform invocation.env ⟨fs, stdin, [], none⟩).2.fs = fs' := by
        rw [hworld]
      rw [← hfiles] at hholds
      exact ⟨houtcome, hholds⟩

/-- Runs from files of the desk. -/
theorem Desk.Holds.run_all (h : desk.Holds platform fs) (htotal : platform.kdf.Total)
    {invocations : List (Invocation Name)} (hquiet : QuietRuns platform desk fs invocations) :
    (runAll platform invocations fs).1 = (desk.answerAll (invocations.map Invocation.request)).1
      ∧ (desk.answerAll (invocations.map Invocation.request)).2.Holds platform
        (runAll platform invocations fs).2 := by
  induction invocations generalizing desk fs with
  | nil => exact ⟨rfl, h⟩
  | cons invocation rest ih =>
      obtain ⟨hfirst, hrest⟩ := hquiet
      obtain ⟨houtcome, hholds⟩ := h.run_step htotal hfirst
      obtain ⟨houtcomes, hfinal⟩ := ih hholds hrest
      exact ⟨congrArg₂ List.cons houtcome houtcomes, hfinal⟩

/-- What the program's commands over vaults and bundles do, from no files
and through any sequence of runs around which nothing fails, is what the
desk says: each run succeeds or fails, and prints, as its request is
answered, and what is then on disk are the desk's vaults and bundles, each
under its own password. -/
theorem runs_refine_desk (platform : Platform) (htotal : platform.kdf.Total)
    (invocations : List (Invocation Name))
    (hquiet : QuietRuns platform Desk.empty noFiles invocations) :
    (runAll platform invocations noFiles).1
        = (Desk.empty.answerAll (invocations.map Invocation.request)).1
      ∧ (Desk.empty.answerAll (invocations.map Invocation.request)).2.Holds platform
        (runAll platform invocations noFiles).2 :=
  Desk.holds_empty.run_all htotal hquiet

-- ================================================================= samples

/-- A vault's own password needs nothing of the cipher. -/
theorem quietUnlock_of_own {path : Path} {password : Bytes} {m : ItemMap}
    (hdesk : desk path = some (.vault password m)) :
    QuietUnlock platform desk fs IoFaults.none path password where
  read := rfl
  ideal v m' bytes hvault _ _ hne := by
    rw [hdesk] at hvault
    cases hvault
    exact absurd rfl hne

/-- Under the keyed platform another password has another key. -/
theorem keyed_apart {v : VaultIdentity Platform.keyed} {m : ItemMap} {bytes password : Bytes}
    (h : Stored v m bytes)
    (hheads : (resizeZero password 20).take 4 ≠ (resizeZero v.password 20).take 4) :
    Authentic Platform.keyed.cipher (UnlockAsks Platform.keyed password bytes) v.Seals
      ∧ v.PasswordsApart password := by
  obtain ⟨records, himage, -⟩ := h
  obtain ⟨tableLen, -, hhead⟩ := himage.headOf
  have hapart : ∀ kek kek',
      vaultKek Platform.keyed password v.header.vaultId v.header.kdfParams = .ok kek →
      vaultKek Platform.keyed v.password v.header.vaultId v.header.kdfParams = .ok kek' →
      kek.toList.take tagLen ≠ kek'.toList.take tagLen :=
    fun kek kek' hkek hkek' htag => hheads (keyed_kek_inj hkek hkek' htag).2
  refine ⟨authentic_of_closed hhead fun kek plaintext hkek hdec => ?_,
    fun kek hkek hkek' => absurd rfl (hapart kek kek hkek hkek')⟩
  obtain ⟨kek', rootKey, hkek', hown, -⟩ := deriveSessionKeys_eq_ok.mp v.keys_derived
  exact hapart kek kek' hkek hkek' (keyed_take_of_opens hdec hown)

theorem quietUnlock_of_apart {path : Path} {password own : Bytes} {m : ItemMap}
    (hdesk : desk path = some (.vault own m))
    (hheads : (resizeZero password 20).take 4 ≠ (resizeZero own 20).take 4) :
    QuietUnlock Platform.keyed desk fs IoFaults.none path password where
  read := rfl
  ideal v m' bytes hvault _ hstored _ := by
    rw [hdesk] at hvault
    cases hvault
    exact keyed_apart hstored hheads

/-- A run by typed answers, with nothing failing. -/
def sampleInvocation (command : VaultCommand Path) (typed : List String) : Invocation Path where
  names := ⟨fun path => path.fileName, fun text => ⟨"", text⟩⟩
  env := {
    resolve := id
    prompts := { stdin := false, fault := fun _ => false, typed := fun i => typed[i]? }
    createDraws := sampleCreateDraws
    createIo := IoFaults.none
    unlockIo := IoFaults.none
    add := sampleEnv
    readIo := IoFaults.none
    exportIo := fun _ => IoFaults.none
    exportNonce := some (List.Vector.replicate 24 0)
    bundleOpen := false
    bundleWrite := none
    bundleRead := false
    imports := ⟨fun _ => sampleEnv, fun _ => sampleEnv⟩ }
  command := command
  stdin := []

/-- A vault, a note, its listing, and someone else's try. -/
def sampleRuns (secret : String) : List (Invocation Path) :=
  [sampleInvocation (.init samplePath) ["correct horse", "correct horse"],
    sampleInvocation (.add "note" "secure-note" samplePath) ["correct horse", secret],
    sampleInvocation (.list samplePath) ["correct horse"],
    sampleInvocation (.list samplePath) ["battery staple"]]

theorem sampleRuns_requests (secret : String) : (sampleRuns secret).map Invocation.request
    = [.ok (.init samplePath "personal.msv" samplePassword samplePassword),
      .ok (.add samplePath samplePassword ⟨.secureNote, "note", utf8 secret, []⟩ (some zeroId)),
      .ok (.list samplePath samplePassword),
      .ok (.list samplePath (utf8 "battery staple"))] := rfl

theorem sampleRuns_answers :
    (Desk.empty.answerAll ((sampleRuns "hunter2").map Invocation.request)).1
      = [.success (lineOf "Created vault: personal.msv"),
        .success (lineOf ("Item ID: " ++ hexId zeroId)),
        .success (lineOf (hexId zeroId ++ "\tnote\tSecureNote")),
        .failed] := by
  rw [sampleRuns_requests]
  decide +kernel

theorem Desk.exec_list_desk (desk : Desk) (path : Path) (password : Bytes) :
    (desk.exec (.list path password)).2 = desk := by
  simp only [Desk.exec]
  split
  · split <;> rfl
  · rfl

/-- Nothing fails around the sample runs, where the note fits. -/
theorem sampleRuns_quiet {secret : String}
    (hadded : (Desk.empty.answerAll
      (((sampleRuns secret).take 2).map Invocation.request)).2 samplePath
      = some (.vault samplePassword
        (TombstoneMap.empty.insert zeroId ⟨.secureNote, "note", utf8 secret, []⟩))) :
    QuietRuns Platform.keyed Desk.empty noFiles (sampleRuns secret) := by
  have hinit : Invocation.Quiet Platform.keyed Desk.empty noFiles
      (sampleInvocation (.init samplePath) ["correct horse", "correct horse"]) := by
    intro request hrequest
    obtain rfl := Except.ok.inj hrequest
    exact ⟨⟨rfl, rfl, rfl, rfl, rfl, rfl, rfl, rfl⟩, rfl, rfl,
      fun recordId _ => ⟨rfl, samplePath_tmp recordId, rfl, rfl, rfl, rfl⟩⟩
  obtain ⟨-, hholds⟩ := Desk.holds_empty.run_step Platform.keyed_total hinit
  refine ⟨hinit, ?_, ?_, ?_, trivial⟩
  · intro request hrequest
    obtain rfl := Except.ok.inj hrequest
    refine ⟨quietUnlock_of_own (m := TombstoneMap.empty) rfl, rfl, drawsWith_forAdd zeroId zeroId,
      persists_of_faultless zeroId zeroId rfl rfl fun p hp => hholds.absent p (if_neg hp), rfl, ?_⟩
    intro m hopened id _ hmem
    obtain rfl : TombstoneMap.empty = m := by
      have hvault := (Desk.opened_eq_some.mp hopened).1
      cases hvault
      rfl
    cases hmem
  · intro request hrequest
    obtain rfl := Except.ok.inj hrequest
    exact ⟨quietUnlock_of_own hadded, rfl⟩
  · intro request hrequest
    obtain rfl := Except.ok.inj hrequest
    refine ⟨quietUnlock_of_apart ((congrFun (Desk.exec_list_desk _ _ _) _).trans hadded)
      (by decide), rfl⟩

/-- A vault of one note: its own password lists it, another nothing. -/
theorem runs_refine_desk_of_sample : (runAll Platform.keyed (sampleRuns "hunter2") noFiles).1
    = [.success (lineOf "Created vault: personal.msv"),
      .success (lineOf ("Item ID: " ++ hexId zeroId)),
      .success (lineOf (hexId zeroId ++ "\tnote\tSecureNote")),
      .failed] :=
  (runs_refine_desk Platform.keyed Platform.keyed_total (sampleRuns "hunter2")
    (sampleRuns_quiet rfl)).1.trans sampleRuns_answers

end MeissnerSeal.Cli
