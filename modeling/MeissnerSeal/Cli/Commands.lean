/-
`meissnerseal init`, `add`, `list`, `get`, `export`, `import` and `lock`:
the commands over a vault.

# A command

A command asks its prompts, unlocks the vault at the path it was given, and
carries out one operation of the core in that session. The session ends
with the run.
-/
import MeissnerSeal.Cli.Console
import MeissnerSeal.Cli.Listing
import MeissnerSeal.Cli.Receive
import MeissnerSeal.Export.Bundle

namespace MeissnerSeal.Cli

open ByteCodec ExceptRules

/-- What the commands over a vault take from the command line. -/
inductive VaultCommand (Name : Type) where
  | init (path : Name)
  | add (label kind : String) (vault : Name)
  | list (vault : Name)
  | get (itemId : String) (vault : Name)
  | export (output vault : Name)
  | import (input vault : Name)
  | lock

/-- What one run meets: the files its names lead to, the answers to its
prompts, what its generator draws, and which of its system calls fail. -/
structure RunEnv (Name : Type) where
  resolve : Name → Path
  prompts : Prompts
  createDraws : CreateDraws
  createIo : IoFaults
  /-- The read of `unlock`. -/
  unlockIo : IoFaults
  /-- The `add` of the core. -/
  add : Env
  /-- The read of `list`, or of `with_item`. -/
  readIo : IoFaults
  exportIo : Nat → IoFaults
  exportNonce : Option Nonce
  bundleOpen : Bool
  bundleWrite : Option Nat
  bundleRead : Bool
  imports : ImportEnv

variable {Name : Type} (platform : Platform) (names : PathNames Name) (env : RunEnv Name)

/-- `string_to_zeroized_vec`. -/
def stringToZeroizedVec (value : String) : Bytes := utf8 value

/-- `unlock_session`. -/
def unlockSession (vaultPath : Name) (password : Bytes) : CliM UnlockedVault :=
  .files (unlock platform env.unlockIo (env.resolve vaultPath) password)

-- ==================================================================== init

/-- `init_vault_with_passwords`. -/
def initVaultWithPasswords (path : Name) (password confirm : String) : CliM Unit := do
  CliM.lift (rejectIf (password ≠ confirm) (.invalidState "password confirmation mismatch"))
  CliM.files (create platform env.createIo env.createDraws (env.resolve path)
    (stringToZeroizedVec password))
  printLine ("Created vault: " ++ names.display path)

/-- `init_vault`. -/
def initVault (path : Name) : CliM Unit := do
  let password ← prompt env.prompts 0
  let confirm ← prompt env.prompts 1
  initVaultWithPasswords platform names env path password confirm

-- ===================================================================== add

/-- `add_item`. -/
def addItem (vaultPath : Name) (password : Bytes) (item : PlainItem) : CliM Unit := do
  let session ← unlockSession platform env vaultPath password
  let id ← CliM.files (add platform env.add session item)
  printLine ("Item ID: " ++ hexId id)

/-- `add_command`. -/
def addCommand (label kind : String) (vault : Name) : CliM Unit := do
  let kind ← CliM.lift (parseItemKind kind)
  let password ← prompt env.prompts 0
  let secret ← prompt env.prompts 1
  addItem platform env vault (stringToZeroizedVec password)
    { kind, label, secret := stringToZeroizedVec secret, tags := [] }

-- ==================================================================== list

/-- `list_vault`. -/
def listVault (vaultPath : Name) (password : Bytes) : CliM String := do
  let session ← unlockSession platform env vaultPath password
  let summaries ← CliM.files (list platform env.readIo session)
  return renderItemSummaries summaries

/-- `list_command`. -/
def listCommand (vaultPath : Name) : CliM Unit := do
  let password ← prompt env.prompts 0
  let output ← listVault platform env vaultPath (stringToZeroizedVec password)
  printBytes (utf8 output)

-- ===================================================================== get

/-- `get_item`. The closure it hands `with_item` prints, and it is the last
thing `with_item` does. -/
def getItem (vaultPath : Name) (password : Bytes) (id : ItemId) : CliM Unit := do
  let session ← unlockSession platform env vaultPath password
  let view ← CliM.files (withItem platform env.readIo session id Except.ok)
  printLine "NOTE: secret printed to stdout"
  printBytes view.secret
  printBytes (utf8 "\n")

/-- `get_command`. -/
def getCommand (itemId : String) (vault : Name) : CliM Unit := do
  let id ← CliM.lift (hexDecodeId itemId)
  let password ← prompt env.prompts 0
  getItem platform env vault (stringToZeroizedVec password) id

-- ================================================================== export

/-- `export_bundle`. The bundle goes to a file that was not there. -/
def exportBundle (vaultPath : Name) (password passphrase : Bytes) (output : Name) : CliM Unit := do
  let session ← unlockSession platform env vaultPath password
  let bundle ← CliM.files
    (MeissnerSeal.exportBundle platform env.exportIo env.exportNonce session passphrase)
  CliM.files (createNewFile env.bundleOpen (env.resolve output))
  CliM.files (writeAll env.bundleWrite (env.resolve output) bundle)
  printLine ("Exported encrypted bundle to " ++ names.display output)

def minExportPassphraseLen : Nat := 12

/-- `export_command`. -/
def exportCommand (output vault : Name) : CliM Unit := do
  let password ← prompt env.prompts 0
  let passphrase ← prompt env.prompts 1
  CliM.lift (rejectIf ((utf8 passphrase).length < minExportPassphraseLen)
    (.invalidState "export passphrase must be at least 12 characters (P-02)"))
  exportBundle platform names env vault (stringToZeroizedVec password)
    (stringToZeroizedVec passphrase) output

-- ================================================================== import

/-- The lines `import_bundle` prints, one by one. -/
def printIds : List ItemId → CliM Unit
  | [] => pure ()
  | id :: ids => do
      printLine (hexId id)
      printIds ids

/-- `import_bundle`. -/
def importBundle (vaultPath : Name) (password passphrase : Bytes) (input : Name) : CliM Unit := do
  let session ← unlockSession platform env vaultPath password
  let bytes ← CliM.files (readFile env.bundleRead (env.resolve input))
  let ids ← CliM.files (MeissnerSeal.importBundle platform env.imports session bytes passphrase)
  printIds ids

/-- `import_command`. -/
def importCommand (input vault : Name) : CliM Unit := do
  let password ← prompt env.prompts 0
  let passphrase ← prompt env.prompts 1
  importBundle platform env vault (stringToZeroizedVec password) (stringToZeroizedVec passphrase)
    input

-- ===================================================================== run

/-- `run`, of the commands over a vault. -/
def run : VaultCommand Name → CliM Unit
  | .init path => initVault platform names env path
  | .add label kind vault => addCommand platform env label kind vault
  | .list vault => listCommand platform env vault
  | .get itemId vault => getCommand platform env itemId vault
  | .export output vault => exportCommand platform names env output vault
  | .import input vault => importCommand platform env input vault
  | .lock => printLine "Vault is locked."

end MeissnerSeal.Cli
