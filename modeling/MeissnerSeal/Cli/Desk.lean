/-
The vaults and bundles of a user, as the user thinks of them.

# The desk

A file is a vault, which is its password and a map of items, or a bundle,
which is its passphrase and a list of items (`Artifact`). `Desk.exec` says
what each command does to the files and what it prints, and nothing of
bytes, keys or frames.

# Requests

What a run of the program asks of the desk is read off its arguments and the
answers to its prompts (`VaultCommand.request`). A run that does not get as
far as its vault asks for nothing.
-/
import MeissnerSeal.Cli.Commands
import MeissnerSeal.Export.Import

namespace MeissnerSeal.Cli

open ByteCodec ExceptRules

-- ==================================================================== desk

/-- A file, to its owner. -/
inductive Artifact where
  | vault (password : Bytes) (items : ItemMap)
  | bundle (passphrase : Bytes) (items : List PlainItem)

/-- The files of a user; `none` is no file. -/
abbrev Desk := Path → Option Artifact

def Desk.empty : Desk := fun _ => none

/-- A desk with one file replaced. -/
def Desk.set (desk : Desk) (path : Path) (artifact : Artifact) : Desk :=
  fun p => if p = path then some artifact else desk p

/-- What a run asks for. -/
inductive Request where
  | init (path : Path) (shown : String) (password confirm : Bytes)
  | add (path : Path) (password : Bytes) (item : PlainItem) (id : Option ItemId)
  | list (path : Path) (password : Bytes)
  | get (path : Path) (password : Bytes) (id : ItemId)
  | export (path : Path) (password passphrase : Bytes) (output : Path) (shown : String)
  | import (path : Path) (password passphrase : Bytes) (input : Path) (ids : Nat → Option ItemId)
  | lock

/-- Whether a run succeeds, and what it prints. -/
structure Outcome where
  ok : Bool
  printed : Bytes
  deriving DecidableEq

def Outcome.failed : Outcome := ⟨false, []⟩

def Outcome.success (printed : Bytes) : Outcome := ⟨true, printed⟩

/-- Nothing in the map is over the limits of the decoder. -/
def allWithinLimits (m : ItemMap) : Bool := m.live.all fun pair => pair.2.WithinLimits

/-- The items a password opens at a path. A vault over the ceiling
opens to no one. -/
def Desk.opened (desk : Desk) (path : Path) (password : Bytes) : Option ItemMap :=
  match desk path with
  | some (.vault own m) => if password = own ∧ storedLen m ≤ maxVaultFileLen then some m else none
  | _ => none

/-- The items a passphrase opens in a bundle, as far as an import counts. -/
def Desk.unsealed (desk : Desk) (path : Path) (passphrase : Bytes) : Option (List PlainItem) :=
  match desk path with
  | some (.bundle own items) =>
      if passphrase = own ∧ items.length ≤ maxExportItemCount then some items else none
  | _ => none

/-- The map with live pairs behind, one after the other. -/
def insertAll (m : ItemMap) (pairs : List (ItemId × PlainItem)) : ItemMap :=
  pairs.foldl (fun m pair => m.insert pair.1 pair.2) m

/-- One line of output. -/
def lineOf (text : String) : Bytes := utf8 (text ++ "\n")

/-- What a request comes to. -/
def Desk.exec (desk : Desk) : Request → Outcome × Desk
  | .init path shown password confirm =>
      if password = confirm ∧ password ≠ [] ∧ (desk path).isNone then
        (.success (lineOf ("Created vault: " ++ shown)),
          desk.set path (.vault password TombstoneMap.empty))
      else (.failed, desk)
  | .add path password item id =>
      match desk.opened path password, id with
      | some m, some id =>
          if storedFrameLen (some item) < 2 ^ 32 then
            (.success (lineOf ("Item ID: " ++ hexId id)),
              desk.set path (.vault password (m.insert id item)))
          else (.failed, desk)
      | _, _ => (.failed, desk)
  | .list path password =>
      match desk.opened path password with
      | some m =>
          if allWithinLimits m then
            (.success (utf8 (renderItemSummaries (liveSummaries m))), desk)
          else (.failed, desk)
      | none => (.failed, desk)
  | .get path password id =>
      match (desk.opened path password).bind fun m => m.status id with
      | some (some item) =>
          if item.WithinLimits then
            (.success (lineOf "NOTE: secret printed to stdout" ++ item.secret ++ utf8 "\n"), desk)
          else (.failed, desk)
      | _ => (.failed, desk)
  | .export path password passphrase output shown =>
      match desk.opened path password with
      | some m =>
          if minExportPassphraseLen ≤ passphrase.length ∧ allWithinLimits m
            ∧ (desk output).isNone then
            (.success (lineOf ("Exported encrypted bundle to " ++ shown)),
              desk.set output (.bundle passphrase (liveItems m)))
          else (.failed, desk)
      | none => (.failed, desk)
  | .import path password passphrase input ids =>
      match desk.opened path password, desk.unsealed input passphrase with
      | some m, some items =>
          let drawn := (List.range items.length).filterMap ids
          (.success (drawn.flatMap fun id => lineOf (hexId id)),
            desk.set path (.vault password (insertAll m (drawn.zip items))))
      | _, _ => (.failed, desk)
  | .lock => (.success (lineOf "Vault is locked."), desk)

-- ================================================================ requests

variable {Name : Type} (names : PathNames Name) (env : RunEnv Name)

/-- The request of a run, if its arguments and prompts make one. -/
def VaultCommand.request (stdin : Bytes) : VaultCommand Name → Res Request
  | .init path => do
      let (password, stdin) ← promptPassword env.prompts 0 stdin
      let (confirm, _) ← promptPassword env.prompts 1 stdin
      return .init (env.resolve path) (names.display path) (utf8 password) (utf8 confirm)
  | .add label kind vault => do
      let kind ← parseItemKind kind
      let (password, stdin) ← promptPassword env.prompts 0 stdin
      let (secret, _) ← promptPassword env.prompts 1 stdin
      return .add (env.resolve vault) (utf8 password) ⟨kind, label, utf8 secret, []⟩
        env.add.draws.recordId
  | .list vault => do
      let (password, _) ← promptPassword env.prompts 0 stdin
      return .list (env.resolve vault) (utf8 password)
  | .get itemId vault => do
      let id ← hexDecodeId itemId
      let (password, _) ← promptPassword env.prompts 0 stdin
      return .get (env.resolve vault) (utf8 password) id
  | .export output vault => do
      let (password, stdin) ← promptPassword env.prompts 0 stdin
      let (passphrase, _) ← promptPassword env.prompts 1 stdin
      return .export (env.resolve vault) (utf8 password) (utf8 passphrase) (env.resolve output)
        (names.display output)
  | .import input vault => do
      let (password, stdin) ← promptPassword env.prompts 0 stdin
      let (passphrase, _) ← promptPassword env.prompts 1 stdin
      return .import (env.resolve vault) (utf8 password) (utf8 passphrase) (env.resolve input)
        env.imports.idAt
  | .lock => return .lock

/-- What a run comes to, by its request. -/
def Desk.answer (desk : Desk) : Res Request → Outcome × Desk
  | .ok request => desk.exec request
  | .error _ => (.failed, desk)

/-- A run of a process: what it returns and prints, and the files it leaves. -/
def runProcess (platform : Platform) (names : PathNames Name) (env : RunEnv Name)
    (command : VaultCommand Name) (stdin : Bytes) (room : Option Nat) (fs : Fs) : Outcome × Fs :=
  match run platform names env command ⟨fs, stdin, [], room⟩ with
  | (r, world) => (⟨r.isOk, world.stdout⟩, world.fs)

end MeissnerSeal.Cli
