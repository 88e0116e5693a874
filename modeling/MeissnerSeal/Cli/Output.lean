/-
What a run does is done before it prints.

# The program

A run of the program is one over a vault or one over devices and transfers
(`CliRun`). Each has a process of its own, and nothing but files goes from
one to the next (`runAllWithin`).

# Silence

A run first works in silence, reading its prompts, its input and the files,
and prints one text at its end (`printsLast_program`). An output that closes
early therefore cuts the text and fails the run, and changes nothing of what
was done. Only of a payload that `transfer receive` prints may the end be cut
without a failure: what stands behind the last line end waits in the line
buffer for the process to end (`lineBuffered`).
-/
import MeissnerSeal.Cli.DeskRuns
import MeissnerSeal.Cli.Devices

namespace MeissnerSeal.Cli

open ByteCodec ExceptRules

variable {Name : Type} {platform : Platform} {env : RunEnv Name}

-- ============================================================= the program

/-- One run of the program, and what it meets. -/
inductive CliRun (Name : Type) where
  | vault (invocation : Invocation Name)
  | device (names : PathNames Name) (command : DeviceCommand Name) (stdin : Bytes)

/-- `run`, of any command. -/
def CliRun.program (platform : DevicePlatform) : CliRun Name → CliM Unit
  | .vault invocation =>
      run platform.toPlatform invocation.names invocation.env invocation.command
  | .device names command _ => runDevice platform names command

def CliRun.stdin : CliRun Name → Bytes
  | .vault invocation => invocation.stdin
  | .device _ _ stdin => stdin

/-- How much of what the run prints is reported if it does not go out. -/
def CliRun.reported : CliRun Name → Bytes → Nat
  | .device _ (.receive _ _) _ => lineBuffered
  | _ => List.length

/-- The run as a process: what it returns and prints, and the
files it leaves. -/
def CliRun.process (platform : DevicePlatform) (run : CliRun Name) (room : Option Nat) (fs : Fs) :
    Outcome × Fs :=
  match run.program platform ⟨fs, run.stdin, [], room⟩ with
  | (r, world) => (⟨r.isOk, world.stdout⟩, world.fs)

/-- Runs one after the other, each within the room of its own output. -/
def runAllWithin (platform : DevicePlatform) :
    List (CliRun Name × Option Nat) → Fs → List Outcome × Fs
  | [], fs => ([], fs)
  | (run, room) :: rest, fs =>
      let (outcome, fs) := run.process platform room fs
      let (outcomes, fs) := runAllWithin platform rest fs
      (outcome :: outcomes, fs)

-- ================================================================= silence

/-- A program that neither prints nor looks at what is printed. -/
def CliM.Silent {α : Type} (m : CliM α) : Prop :=
  ∀ (world : World) (stdout : Bytes) (room : Option Nat), m { world with stdout, room }
    = ((m world).1, { (m world).2 with stdout, room })

namespace CliM

variable {α β : Type}

theorem silent_pure (a : α) : Silent (pure a : CliM α) := fun _ _ _ => rfl

theorem silent_lift (x : Res α) : Silent (lift x) := fun _ _ _ => rfl

theorem silent_files (m : FsM α) : Silent (files m) := fun _ _ _ => rfl

theorem silent_prompt (prompts : Prompts) (i : Nat) : Silent (prompt prompts i) := by
  intro world stdout room
  unfold prompt
  cases promptPassword prompts i world.stdin with
  | error e => rfl
  | ok answer => rfl

theorem silent_fromStdin (read : Bytes → Res (α × Bytes)) : Silent (fromStdin read) := by
  intro world stdout room
  unfold fromStdin
  cases read world.stdin with
  | error e => rfl
  | ok answer => rfl

theorem Silent.bind {m : CliM α} {f : α → CliM β} (hm : Silent m) (hf : ∀ a, Silent (f a)) :
    Silent (m >>= f) := by
  intro world stdout room
  rw [bind_apply, bind_apply, hm world stdout room]
  rcases m world with ⟨r, world'⟩
  cases r with
  | error e => rfl
  | ok a => exact hf a world' stdout room

/-- It leaves what was printed. -/
theorem Silent.stdout_eq {m : CliM α} (hm : Silent m) (world : World) :
    (m world).2.stdout = world.stdout ∧ (m world).2.room = world.room := by
  have hsame : (m world).2 = { (m world).2 with stdout := world.stdout, room := world.room } :=
    congrArg Prod.snd (hm world world.stdout world.room)
  rw [hsame]
  exact ⟨rfl, rfl⟩

end CliM

-- ==================================================================== texts

/-- Two texts, one after the other, are one text. -/
theorem printBytes_append (first second : Bytes) :
    (printBytes first >>= fun _ => printBytes second) = printBytes (first ++ second) := by
  funext world
  obtain ⟨fs, stdin, stdout, room⟩ := world
  cases room with
  | none =>
      show (_, _) = (_, _)
      simp only [List.append_assoc]
  | some room =>
      rw [CliM.bind_apply]
      simp only [printBytes, List.length_append, List.take_append]
      by_cases hfirst : first.length ≤ room
      · simp only [if_pos hfirst, List.take_of_length_le hfirst, List.append_assoc]
        have hboth : second.length ≤ room - first.length ↔ first.length + second.length ≤ room := by
          omega
        simp only [hboth, Nat.sub_sub]
      · have hboth : ¬ first.length + second.length ≤ room := by omega
        have hrest : room - first.length = 0 := by omega
        have hgone : room - (first.length + second.length) = 0 := by omega
        simp only [if_neg hfirst, if_neg hboth, hrest, hgone, List.take_zero, List.append_nil]

theorem printBytes_nil : printBytes [] = pure () := by
  funext world
  obtain ⟨fs, stdin, stdout, room⟩ := world
  cases room with
  | none => simp only [printBytes, List.append_nil]; rfl
  | some room =>
      simp only [printBytes, List.length_nil, Nat.zero_le, if_true, List.take_nil, List.append_nil,
        Nat.sub_zero]
      rfl

theorem printIds_eq (ids : List ItemId) :
    printIds ids = printBytes (ids.flatMap fun id => lineOf (hexId id)) := by
  induction ids with
  | nil => exact printBytes_nil.symm
  | cons id ids ih =>
      rw [printIds, ih, List.flatMap_cons]
      exact printBytes_append _ _

-- ============================================================= the last text

/-- A run that works in silence and prints one text at its end, of which so
much is reported. -/
def PrintsLast (reported : Bytes → Nat) (program : CliM Unit) : Prop :=
  ∃ silent : CliM Bytes, silent.Silent ∧ program = silent >>= printReported reported

section PrintsLast

variable {reported : Bytes → Nat}

theorem PrintsLast.of_text {program : CliM Unit} {text : Bytes}
    (h : program = printReported reported text) : PrintsLast reported program :=
  ⟨pure text, CliM.silent_pure text, h⟩

/-- A text that ends its lines is reported whole. -/
theorem printsLast_printBytes (text : Bytes) :
    PrintsLast List.length (printBytes text) := .of_text rfl

theorem PrintsLast.of_bind {α : Type} {m : CliM α} {f : α → CliM Unit} (hm : m.Silent)
    (hf : ∀ a, PrintsLast reported (f a)) : PrintsLast reported (m >>= f) := by
  choose silent hsilent hf using hf
  refine ⟨m >>= silent, hm.bind hsilent, ?_⟩
  rw [CliM.bind_assoc]
  exact congrArg (m >>= ·) (funext hf)

theorem PrintsLast.of_files {α : Type} {m : FsM α} {f : α → CliM Unit}
    (hf : ∀ a, PrintsLast reported (f a)) : PrintsLast reported (CliM.files m >>= f) :=
  .of_bind (CliM.silent_files m) hf

theorem PrintsLast.of_prompt {prompts : Prompts} {i : Nat} {f : String → CliM Unit}
    (hf : ∀ text, PrintsLast reported (f text)) : PrintsLast reported (prompt prompts i >>= f) :=
  .of_bind (CliM.silent_prompt prompts i) hf

theorem PrintsLast.of_stdin {α : Type} {read : Bytes → Res (α × Bytes)} {f : α → CliM Unit}
    (hf : ∀ a, PrintsLast reported (f a)) : PrintsLast reported (fromStdin read >>= f) :=
  .of_bind (CliM.silent_fromStdin read) hf

theorem PrintsLast.of_lift {α : Type} {x : Res α} {f : α → CliM Unit}
    (hf : ∀ a, PrintsLast reported (f a)) : PrintsLast reported (CliM.lift x >>= f) :=
  .of_bind (CliM.silent_lift x) hf

/-- A run that only fails. -/
theorem printsLast_error (e : CoreError) : PrintsLast reported (CliM.lift (.error e)) :=
  ⟨CliM.lift (.error e), CliM.silent_lift _, rfl⟩

end PrintsLast

/-- Every command over a vault prints last. -/
theorem printsLast_run (platform : Platform) (env : RunEnv Name) (names : PathNames Name)
    (command : VaultCommand Name) : PrintsLast List.length (run platform names env command) := by
  cases command with
  | init path =>
      exact .of_prompt fun _ => .of_prompt fun _ => .of_lift fun _ => .of_files fun _ =>
        printsLast_printBytes _
  | add label kind vault =>
      exact .of_lift fun _ => .of_prompt fun _ => .of_prompt fun _ => .of_files fun _ =>
        .of_files fun _ => printsLast_printBytes _
  | list vault =>
      have hlist : ∀ password, (listVault platform env vault password).Silent := fun password =>
        (CliM.silent_files _).bind fun _ => (CliM.silent_files _).bind fun _ => CliM.silent_pure _
      exact .of_prompt fun _ => .of_bind (hlist _) fun _ => printsLast_printBytes _
  | get itemId vault =>
      refine .of_lift fun _ => .of_prompt fun _ => .of_files fun _ => .of_files fun view => ?_
      have htext : (printLine "NOTE: secret printed to stdout" >>= fun _ =>
          printBytes view.secret >>= fun _ => printBytes (utf8 "\n"))
          = printBytes (lineOf "NOTE: secret printed to stdout" ++ (view.secret ++ utf8 "\n")) := by
        rw [printBytes_append]
        exact printBytes_append _ _
      exact .of_text htext
  | «export» output vault =>
      exact .of_prompt fun _ => .of_prompt fun _ => .of_lift fun _ => .of_files fun _ =>
        .of_files fun _ => .of_files fun _ => .of_files fun _ => printsLast_printBytes _
  | «import» input vault =>
      exact .of_prompt fun _ => .of_prompt fun _ => .of_files fun _ => .of_files fun _ =>
        .of_files fun ids => .of_text (printIds_eq ids)
  | lock => exact printsLast_printBytes _

/-- So does every command of the program. -/
theorem printsLast_program (platform : DevicePlatform) (run : CliRun Name) :
    PrintsLast run.reported (run.program platform) := by
  cases run with
  | vault invocation =>
      exact printsLast_run platform.toPlatform invocation.env invocation.names invocation.command
  | device names command stdin =>
      cases command with
      | pair run =>
          exact .of_lift fun _ => .of_stdin fun _ => .of_lift fun _ => .of_lift fun _ =>
            .of_stdin fun _ => .of_lift fun _ => .of_prompt fun _ => .of_files fun _ =>
            .of_files fun _ => .of_files fun _ => .of_files fun _ => printsLast_printBytes _
      | list => exact printsLast_error _
      | revoke => exact printsLast_error _
      | create run =>
          exact .of_prompt fun _ => .of_files fun _ => .of_files fun _ => printsLast_printBytes _
      | receive prompts run =>
          exact .of_prompt fun _ => .of_files fun _ => .of_text rfl

-- ==================================================================== runs

/-- An outcome, as far as the output takes it; of the text so
much is reported. -/
def Outcome.within (outcome : Outcome) (reported : Bytes → Nat) : Option Nat → Outcome
  | none => outcome
  | some room => ⟨outcome.ok && reported outcome.printed ≤ room, outcome.printed.take room⟩

/-- What a last text comes to, within its room. -/
theorem PrintsLast.within {reported : Bytes → Nat} {program : CliM Unit}
    (h : PrintsLast reported program) (fs : Fs) (stdin : Bytes) (room : Option Nat) :
    let full := program ⟨fs, stdin, [], none⟩
    let cut := program ⟨fs, stdin, [], room⟩
    cut.2.fs = full.2.fs
      ∧ (⟨cut.1.isOk, cut.2.stdout⟩ : Outcome)
        = Outcome.within ⟨full.1.isOk, full.2.stdout⟩ reported room := by
  obtain ⟨silent, hsilent, rfl⟩ := h
  have hcut : silent ⟨fs, stdin, [], room⟩ = ((silent ⟨fs, stdin, [], none⟩).1,
      { (silent ⟨fs, stdin, [], none⟩).2 with stdout := [], room := room }) :=
    hsilent ⟨fs, stdin, [], none⟩ [] room
  have hkept : (silent ⟨fs, stdin, [], none⟩).2.stdout = []
      ∧ (silent ⟨fs, stdin, [], none⟩).2.room = none := hsilent.stdout_eq ⟨fs, stdin, [], none⟩
  dsimp only
  rw [CliM.bind_apply, CliM.bind_apply, hcut]
  rcases hrun : silent ⟨fs, stdin, [], none⟩ with ⟨r, world⟩
  rw [hrun] at hkept
  obtain ⟨fs', stdin', stdout, room'⟩ := world
  obtain ⟨rfl, rfl⟩ : stdout = [] ∧ room' = none := hkept
  cases r with
  | error e =>
      cases room with
      | none => exact ⟨rfl, rfl⟩
      | some room =>
          refine ⟨rfl, ?_⟩
          show (⟨false, []⟩ : Outcome) = ⟨false && _, List.take room []⟩
          rw [Bool.false_and, List.take_nil]
  | ok text =>
      cases room with
      | none => exact ⟨rfl, rfl⟩
      | some room =>
          refine ⟨rfl, ?_⟩
          show (⟨(if reported text ≤ room then Except.ok () else .error .io : Res Unit).isOk,
              text.take room⟩ : Outcome) = ⟨true && decide (reported text ≤ room), text.take room⟩
          by_cases hroom : reported text ≤ room
          · rw [if_pos hroom, decide_eq_true hroom]
            rfl
          · rw [if_neg hroom, decide_eq_false hroom]
            rfl

/-- One run, within the room its output has. -/
theorem CliRun.process_within (platform : DevicePlatform) (run : CliRun Name) (room : Option Nat)
    (fs : Fs) :
    run.process platform room fs
      = ((run.process platform none fs).1.within run.reported room,
          (run.process platform none fs).2) := by
  obtain ⟨hfiles, hprinted⟩ := (printsLast_program platform run).within fs run.stdin room
  exact Prod.ext hprinted hfiles

/-- Outputs that close early, whatever else fails, change no file: any runs
leave the files they leave when every output takes everything. Each prints
what it prints then, as far as its output takes it, and succeeds exactly
when it does then and its output takes all that is reported. -/
theorem runAllWithin_eq (platform : DevicePlatform) (runs : List (CliRun Name × Option Nat))
    (fs : Fs) :
    let full := runAllWithin platform (runs.map fun run => (run.1, none)) fs
    runAllWithin platform runs fs
      = (List.zipWith (fun outcome run => Outcome.within outcome run.1.reported run.2) full.1 runs,
          full.2) := by
  induction runs generalizing fs with
  | nil => rfl
  | cons first rest ih =>
      obtain ⟨run, room⟩ := first
      have hrun := run.process_within platform room fs
      simp only [runAllWithin, hrun, ih]
      rfl

end MeissnerSeal.Cli
