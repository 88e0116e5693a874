/-
The command line around the core: what one run of the program reads and
prints besides files.

# A run

A run holds the files, what is left of its standard input, and what it has
printed. Standard output may take some bytes and then fail (`World.room`); a
failed run has printed what it had printed.

# Prompts

With `--stdin` a prompt takes the next line of standard input, without the
ends of line behind it. Otherwise it is answered at the terminal
(`Prompts.typed`).

# The line buffer

Standard output holds back what stands behind the last line end, and whether
that went out nobody asks (`lineBuffered`). A text of whole lines is not held
back (`printReported_of_line`), so all that the vault commands print is
reported.
-/
import MeissnerSeal.Vault.Fs

namespace MeissnerSeal.Cli

open ByteCodec ExceptRules

/-- What a run of the program holds. -/
structure World where
  fs : Fs
  stdin : Bytes
  stdout : Bytes
  /-- How many more bytes standard output takes, if it is to fail. -/
  room : Option Nat

/-- A program at the command line. -/
def CliM (α : Type) := World → Res α × World

namespace CliM

variable {α β : Type}

def ok (a : α) : CliM α := fun world => (.ok a, world)

def bind (m : CliM α) (f : α → CliM β) : CliM β := fun world =>
  match m world with
  | (.ok a, world) => f a world
  | (.error e, world) => (.error e, world)

instance : Monad CliM where
  pure := ok
  bind := bind

/-- A computation that touches nothing. -/
def lift (x : Res α) : CliM α := fun world => (x, world)

/-- A program over the files. -/
def files (m : FsM α) : CliM α := fun world =>
  match m world.fs with
  | (r, fs) => (r, { world with fs })

theorem bind_apply (m : CliM α) (f : α → CliM β) (world : World) :
    (m >>= f) world = match m world with
      | (.ok a, world) => f a world
      | (.error e, world) => (.error e, world) := rfl

theorem pure_apply (a : α) (world : World) : (pure a : CliM α) world = (.ok a, world) := rfl

theorem lift_bind_ok (a : α) (f : α → CliM β) (world : World) :
    (lift (.ok a) >>= f) world = f a world := rfl

theorem bind_assoc {γ : Type} (m : CliM α) (f : α → CliM β) (g : β → CliM γ) :
    m >>= f >>= g = m >>= fun a => f a >>= g := by
  funext world
  rw [bind_apply, bind_apply, bind_apply]
  cases m world with
  | mk r world => cases r <;> rfl

theorem pure_bind (a : α) (f : α → CliM β) : (pure a >>= f) = f a := rfl

theorem files_bind (m : FsM α) (f : α → CliM β) (world : World) :
    (files m >>= f) world = match m world.fs with
      | (.ok a, fs) => f a { world with fs }
      | (.error e, fs) => (.error e, { world with fs }) := by
  rw [bind_apply, files]
  cases hrun : m world.fs with
  | mk r fs => cases r <;> rfl

end CliM

-- ================================================================= prompts

/-- How the prompts of a run are answered, one after the other. -/
structure Prompts where
  /-- The flag `--stdin`. -/
  stdin : Bool
  /-- Reading standard input fails at this prompt. -/
  fault : Nat → Bool
  /-- What `rpassword::prompt_password` returns, if it does not fail. -/
  typed : Nat → Option String

/-- A line with its end, and what follows it. -/
def splitLine : Bytes → Bytes × Bytes
  | [] => ([], [])
  | b :: bs => if b = 0x0a then ([b], bs) else (b :: (splitLine bs).1, (splitLine bs).2)

/-- `line.trim_end_matches(&['\r', '\n'][..])`. -/
def trimLineEnds (line : String) : String :=
  String.ofList (line.toList.reverse.dropWhile fun c => c = '\r' ∨ c = '\n').reverse

/-- `read_password_from_stdin`: the line, and what is left of the input. -/
def readPasswordFromStdin (fault : Bool) (stdin : Bytes) : Res (String × Bytes) :=
  if fault then .error .io
  else
    match fromUtf8 (splitLine stdin).1 with
    | none => .error .io
    | some line => .ok (trimLineEnds line, (splitLine stdin).2)

/-- `prompt_password`, of the `i`-th prompt of a run. -/
def promptPassword (prompts : Prompts) (i : Nat) (stdin : Bytes) : Res (String × Bytes) :=
  if prompts.stdin then readPasswordFromStdin (prompts.fault i) stdin
  else (okOr (prompts.typed i) .io).map fun text => (text, stdin)

/-- A prompt, within a run. -/
def prompt (prompts : Prompts) (i : Nat) : CliM String := fun world =>
  match promptPassword prompts i world.stdin with
  | .ok (text, stdin) => (.ok text, { world with stdin })
  | .error e => (.error e, world)

-- ================================================================ printing

/-- `stdout.write_all(bytes)`, where of the bytes so many have to go out for
no failure to be reported. -/
def printReported (reported : Bytes → Nat) (bytes : Bytes) : CliM Unit := fun world =>
  match world.room with
  | none => (.ok (), { world with stdout := world.stdout ++ bytes })
  | some room =>
      (if reported bytes ≤ room then .ok () else .error .io,
        { world with
          stdout := world.stdout ++ bytes.take room
          room := some (room - bytes.length) })

/-- `stdout.write_all(bytes)`, where a line end comes last. -/
def printBytes (bytes : Bytes) : CliM Unit := fun world =>
  match world.room with
  | none => (.ok (), { world with stdout := world.stdout ++ bytes })
  | some room =>
      (if bytes.length ≤ room then .ok () else .error .io,
        { world with
          stdout := world.stdout ++ bytes.take room
          room := some (room - bytes.length) })

/-- What the line buffer of standard output holds. -/
def lineBufferLen : Nat := 1024

/-- How much of a last text is reported if it does not go out. What stands
behind its last line end is left in the line buffer, if it fits; the process
empties the buffer when it ends, and says nothing if that fails. -/
def lineBuffered (bytes : Bytes) : Nat :=
  let tail := bytes.reverse.takeWhile (· ≠ 0x0a)
  if tail.length < lineBufferLen then bytes.length - tail.length else bytes.length

/-- Of a text that ends a line nothing is left behind. -/
theorem printReported_of_line (line : Bytes) :
    printReported lineBuffered (line ++ [0x0a]) = printBytes (line ++ [0x0a]) := by
  have hall : lineBuffered (line ++ [0x0a]) = (line ++ [0x0a]).length := by
    simp [lineBuffered, lineBufferLen]
  funext world
  unfold printReported printBytes
  rw [hall]

/-- `writeln!(stdout, "{text}")`. -/
def printLine (text : String) : CliM Unit := printBytes (utf8 (text ++ "\n"))

theorem printBytes_of_none {world : World} (h : world.room = none) (bytes : Bytes) :
    printBytes bytes world = (.ok (), { world with stdout := world.stdout ++ bytes }) := by
  rw [printBytes, h]

/-- Printing changes no file and takes back nothing. -/
theorem printBytes_cases (bytes : Bytes) (world : World) :
    (printBytes bytes world).2.fs = world.fs
      ∧ ∃ shown, (printBytes bytes world).2.stdout = world.stdout ++ shown ∧ shown <+: bytes
        ∧ ((printBytes bytes world).1 = .ok () → shown = bytes) := by
  unfold printBytes
  cases world.room with
  | none => exact ⟨rfl, bytes, rfl, List.prefix_rfl, fun _ => rfl⟩
  | some room =>
      refine ⟨rfl, bytes.take room, rfl, List.take_prefix .., fun hok => ?_⟩
      by_cases hroom : bytes.length ≤ room
      · exact List.take_of_length_le hroom
      · simp only [if_neg hroom] at hok
        cases hok

end MeissnerSeal.Cli
