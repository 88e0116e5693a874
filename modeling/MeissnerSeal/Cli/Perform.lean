/-
What a run does once its prompts are answered.

# Two halves

A run of a vault command reads its arguments and asks its prompts, and then
carries out one request (`Request.perform`). The first half touches no file
and prints nothing (`run_eq_perform`), so whatever is shown of requests is
shown of runs.
-/
import MeissnerSeal.Cli.Desk

namespace MeissnerSeal.Cli

open ByteCodec ExceptRules

variable {Name : Type} (platform : Platform) (env : RunEnv Name)

/-- The half of a run behind its prompts. -/
def Request.perform : Request → CliM Unit
  | .init path shown password confirm => do
      CliM.lift (rejectIf (password ≠ confirm) (.invalidState "password confirmation mismatch"))
      CliM.files (create platform env.createIo env.createDraws path password)
      printLine ("Created vault: " ++ shown)
  | .add path password item _ => do
      let session ← CliM.files (unlock platform env.unlockIo path password)
      let id ← CliM.files (MeissnerSeal.add platform env.add session item)
      printLine ("Item ID: " ++ hexId id)
  | .list path password => do
      let session ← CliM.files (unlock platform env.unlockIo path password)
      let summaries ← CliM.files (MeissnerSeal.list platform env.readIo session)
      printBytes (utf8 (renderItemSummaries summaries))
  | .get path password id => do
      let session ← CliM.files (unlock platform env.unlockIo path password)
      let view ← CliM.files (withItem platform env.readIo session id Except.ok)
      printLine "NOTE: secret printed to stdout"
      printBytes view.secret
      printBytes (utf8 "\n")
  | .export path password passphrase output shown => do
      CliM.lift (rejectIf (passphrase.length < minExportPassphraseLen)
        (.invalidState "export passphrase must be at least 12 characters (P-02)"))
      let session ← CliM.files (unlock platform env.unlockIo path password)
      let bundle ← CliM.files
        (MeissnerSeal.exportBundle platform env.exportIo env.exportNonce session passphrase)
      CliM.files (createNewFile env.bundleOpen output)
      CliM.files (writeAll env.bundleWrite output bundle)
      printLine ("Exported encrypted bundle to " ++ shown)
  | .import path password passphrase input _ => do
      let session ← CliM.files (unlock platform env.unlockIo path password)
      let bytes ← CliM.files (readFile env.bundleRead input)
      let ids ← CliM.files (MeissnerSeal.importBundle platform env.imports session bytes passphrase)
      printIds ids
  | .lock => printLine "Vault is locked."

/-- A request as a run, if there is one. -/
def performed : Res Request → CliM Unit
  | .ok request => request.perform platform env
  | .error e => CliM.lift (.error e)

variable {platform env} {names : PathNames Name}

theorem utf8_ne_iff {s t : String} : utf8 s ≠ utf8 t ↔ s ≠ t :=
  not_congr ⟨utf8_inj, congrArg utf8⟩

/-- A run and its request ask one prompt. -/
theorem performed_prompt {i : Nat} {f : String → CliM Unit} {g : String × Bytes → Res Request}
    {world : World}
    (h : ∀ text rest, ∃ stdin, f text { world with stdin := rest }
      = performed platform env (g (text, rest)) { world with stdin }) :
    ∃ stdin, (prompt env.prompts i >>= f) world
      = performed platform env (promptPassword env.prompts i world.stdin >>= g)
        { world with stdin } := by
  rw [CliM.bind_apply, prompt]
  cases promptPassword env.prompts i world.stdin with
  | error e => exact ⟨world.stdin, rfl⟩
  | ok answer => exact h answer.1 answer.2

/-- A run and its request fail in one argument. -/
theorem performed_lift {α : Type} {x : Res α} {f : α → CliM Unit} {g : α → Res Request}
    {world : World}
    (h : ∀ a, ∃ stdin, f a world = performed platform env (g a) { world with stdin }) :
    ∃ stdin, (CliM.lift x >>= f) world = performed platform env (x >>= g) { world with stdin } := by
  cases x with
  | error e => exact ⟨world.stdin, rfl⟩
  | ok a => exact h a

/-- Behind its prompts a run is its request; in front of them it has touched
nothing but its input. -/
theorem run_eq_perform (command : VaultCommand Name) (world : World) :
    ∃ stdin, run platform names env command world
      = performed platform env (command.request names env world.stdin) { world with stdin } := by
  cases command with
  | init path =>
      refine performed_prompt fun password rest => performed_prompt fun confirm rest => ⟨rest, ?_⟩
      simp only [initVaultWithPasswords, stringToZeroizedVec, pure_eq_ok, performed,
        Request.perform, rejectIf, utf8_ne_iff]
  | add label kind vault =>
      exact performed_lift fun kind => performed_prompt fun password rest =>
        performed_prompt fun secret rest => ⟨rest, rfl⟩
  | list vault =>
      refine performed_prompt fun password rest => ⟨rest, ?_⟩
      simp only [listVault, CliM.bind_assoc, CliM.pure_bind]
      rfl
  | get itemId vault =>
      exact performed_lift fun id => performed_prompt fun password rest => ⟨rest, rfl⟩
  | «export» output vault =>
      exact performed_prompt fun password rest =>
        performed_prompt fun passphrase rest => ⟨rest, rfl⟩
  | «import» input vault =>
      exact performed_prompt fun password rest =>
        performed_prompt fun passphrase rest => ⟨rest, rfl⟩
  | lock => exact ⟨world.stdin, rfl⟩

end MeissnerSeal.Cli
