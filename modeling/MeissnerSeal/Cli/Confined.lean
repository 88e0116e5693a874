/-
Which files a run of the program touches, whatever fails in it.

# Vaults

A run of `init`, `add` or `import` touches its vault and the temporary names
made of the vault's path, a run of `export` its output; `list`, `get` and
`lock` touch nothing, and neither does a run that stops at its arguments or at
a prompt (`Request.Spares`). No failure changes that, of the files, of the
generator or of the output.

# Devices

A pairing touches the three files it is given, `transfer create` its output.
`transfer receive` touches its output and the file of the seen identifiers,
whose name it makes up itself where it is given none
(`DeviceCommand.Spares`).
-/
import MeissnerSeal.Cli.Output
import MeissnerSeal.Vault.Confined

namespace MeissnerSeal.Cli

open ByteCodec ExceptRules

variable {Name : Type} {platform : Platform} {env : RunEnv Name} {p : Path}

namespace CliM

variable {α β : Type}

/-- The program leaves the file alone. -/
def Spares (m : CliM α) (p : Path) : Prop := ∀ world, (m world).2.fs p = world.fs p

theorem spares_lift (x : Res α) (p : Path) : Spares (lift x) p := fun _ => rfl

theorem spares_printBytes (bytes : Bytes) (p : Path) : Spares (printBytes bytes) p := by
  intro world
  rw [(printBytes_cases bytes world).1]

theorem Spares.bind {m : CliM α} {f : α → CliM β} (hm : m.Spares p) (hf : ∀ a, (f a).Spares p) :
    (m >>= f).Spares p := by
  intro world
  have hfirst := hm world
  rw [bind_apply]
  rcases hrun : m world with ⟨e | a, world₁⟩
  · rw [hrun] at hfirst
    exact hfirst
  · rw [hrun] at hfirst
    exact (hf a world₁).trans hfirst

theorem spares_prompt (prompts : Prompts) (i : Nat) (p : Path) : (prompt prompts i).Spares p := by
  intro world
  unfold prompt
  split <;> rfl

theorem spares_fromStdin (read : Bytes → Res (α × Bytes)) (p : Path) :
    (fromStdin read).Spares p := by
  intro world
  unfold fromStdin
  split <;> rfl

theorem spares_printReported (reported : Bytes → Nat) (bytes : Bytes) (p : Path) :
    (printReported reported bytes).Spares p := by
  intro world
  unfold printReported
  split <;> rfl

theorem spares_files {m : FsM α} (h : m.Leaves p) : (files m).Spares p := fun world => h world.fs

/-- A step over the files, and what it returns. -/
theorem Spares.files_bind {m : FsM α} {f : α → CliM β} (hm : m.Leaves p)
    (hf : ∀ a fs, (m fs).1 = .ok a → (f a).Spares p) : (files m >>= f).Spares p := by
  intro world
  have hfirst := hm world.fs
  rw [CliM.files_bind]
  rcases hrun : m world.fs with ⟨e | a, fs₁⟩
  · rw [hrun] at hfirst
    exact hfirst
  · rw [hrun] at hfirst
    exact (hf a world.fs (congrArg Prod.fst hrun) _).trans hfirst

end CliM

open CliM

-- =================================================================== requests

/-- The request has nothing to do with the file. -/
def Request.Spares (p : Path) : Request → Prop
  | .init path _ _ _ => Outside path p
  | .add path _ _ _ => Outside path p
  | .list _ _ => True
  | .get _ _ _ => True
  | .export _ _ _ output _ => p ≠ output
  | .import path _ _ _ _ => Outside path p
  | .lock => True

/-- A run over a vault, behind `unlock`. -/
theorem spares_of_unlock {path : Path} {password : Bytes} {io : IoFaults}
    {f : UnlockedVault → CliM Unit} (hf : ∀ session, session.path = path → (f session).Spares p) :
    (CliM.files (unlock platform io path password) >>= f).Spares p := by
  refine .files_bind ((reads_unlock platform io path password).leaves p) fun session fs hok => ?_
  obtain ⟨-, -, bytes, -, hopens⟩ := unlock_eq_ok.mp hok
  obtain ⟨-, _, _, -, -, -, hpath, -⟩ := unlockBytes_eq_ok.mp hopens
  exact hf session hpath

/-- A request leaves the files it has nothing to do with. -/
theorem spares_perform {request : Request} (h : request.Spares p) :
    (request.perform platform env).Spares p := by
  cases request with
  | init path shown password confirm =>
      refine .bind (spares_lift _ p) fun _ => .files_bind ?_ fun _ _ _ => spares_printBytes _ p
      exact leaves_create platform env.createIo env.createDraws password h
  | add path password item id =>
      refine spares_of_unlock fun session hpath => .files_bind ?_ fun _ _ _ => spares_printBytes _ p
      exact leaves_add platform session env.add item (hpath.symm ▸ h)
  | list path password =>
      refine spares_of_unlock fun session _ => .files_bind ?_ fun _ _ _ => spares_printBytes _ p
      exact (reads_list platform session env.readIo).leaves p
  | get path password id =>
      refine spares_of_unlock fun session _ => .files_bind ?_ fun _ _ _ => ?_
      · exact (reads_withItem platform session env.readIo id Except.ok).leaves p
      · exact .bind (spares_printBytes _ p) fun _ =>
          .bind (spares_printBytes _ p) fun _ => spares_printBytes _ p
  | «export» path password passphrase output shown =>
      refine .bind (spares_lift _ p) fun _ => spares_of_unlock fun session _ =>
        .files_bind ?_ fun _ _ _ => .files_bind ?_ fun _ _ _ => .files_bind ?_ fun _ _ _ =>
        spares_printBytes _ p
      · exact (reads_exportBundle platform session env.exportIo env.exportNonce passphrase).leaves p
      · exact leaves_createNewFile env.bundleOpen (.of_ne h)
      · exact leaves_writeAll env.bundleWrite _ h
  | «import» path password passphrase input ids =>
      refine spares_of_unlock fun session hpath =>
        .files_bind ?_ fun _ _ _ => .files_bind ?_ fun ids _ _ => ?_
      · exact (reads_readFile env.bundleRead input).leaves p
      · exact leaves_importBundle platform session env.imports _ passphrase (hpath.symm ▸ h)
      · rw [printIds_eq]
        exact spares_printBytes _ p
  | lock => exact spares_printBytes _ p

/-- One run, with whatever room for its output. -/
theorem runProcess_spares {names : PathNames Name} {command : VaultCommand Name} {stdin : Bytes}
    (h : ∀ request, command.request names env stdin = .ok request → request.Spares p)
    (room : Option Nat) (fs : Fs) :
    (runProcess platform names env command stdin room fs).2 p = fs p := by
  obtain ⟨stdin', hrun⟩ := @run_eq_perform _ platform env names command ⟨fs, stdin, [], room⟩
  unfold runProcess
  rw [hrun]
  cases hrequest : command.request names env stdin with
  | error e => rfl
  | ok request => exact spares_perform (h request hrequest) _

-- ==================================================================== devices

/-- The command has nothing to do with the file. -/
def DeviceCommand.Spares (names : PathNames Name) (p : Path) : DeviceCommand Name → Prop
  | .pair run => p ≠ run.resolve run.args.selfKeypair ∧ p ≠ run.resolve run.args.selfIdentity
      ∧ p ≠ run.resolve run.args.peerIdentity
  | .list => True
  | .revoke => True
  | .create run => p ≠ run.resolve run.args.output
  | .receive _ run => p ≠ run.seenFile names ∧ ∀ output, run.outputFile = some output → p ≠ output

theorem leaves_saveSealedKeypair (platform : DevicePlatform) (outcome : WriteOutcome)
    (salt : U8Array 32) (draw : Option Nonce) {path : Path} (identity : DeviceIdentity)
    (keypair : DeviceKeypair) (passphrase : Bytes) (h : p ≠ path) :
    (saveSealedKeypair platform outcome salt draw path identity keypair passphrase).Leaves p := by
  refine ((FsM.reads_lift _).leaves p).bind fun _ =>
    ((FsM.reads_lift _).leaves p).bind fun _ => ?_
  exact leaves_writeFile h outcome _

/-- A command leaves the files it has nothing to do with. -/
theorem spares_runDevice {platform : DevicePlatform} {names : PathNames Name}
    {command : DeviceCommand Name} (h : command.Spares names p) :
    (runDevice platform names command).Spares p := by
  cases command with
  | pair run =>
      obtain ⟨hkeypair, hself, hpeer⟩ := h
      refine .bind (spares_lift _ p) fun _ => .bind (spares_fromStdin _ p) fun _ =>
        .bind (spares_lift _ p) fun _ => .bind (spares_lift _ p) fun _ =>
        .bind (spares_fromStdin _ p) fun _ => .bind (spares_lift _ p) fun _ =>
        .bind (spares_prompt _ _ p) fun _ => .bind (spares_files ?_) fun _ =>
        .bind (spares_files ?_) fun _ => .bind (spares_files ?_) fun _ =>
        .bind (spares_files ?_) fun _ => spares_printBytes _ p
      · exact leaves_saveSealedKeypair platform _ _ _ _ _ _ hkeypair
      · exact leaves_restrictOwnerOnly _ p
      · exact leaves_writeFile hself _ _
      · exact leaves_writeFile hpeer _ _
  | list => exact spares_lift _ p
  | revoke => exact spares_lift _ p
  | create run =>
      refine .bind (spares_prompt _ _ p) fun _ => .bind (spares_files ?_) fun _ =>
        .bind (spares_files ?_) fun _ => spares_printBytes _ p
      · exact FsM.leaves_reading _ p
      · exact leaves_writeFile h _ _
  | receive prompts run =>
      refine .bind (spares_prompt _ _ p) fun _ => .bind (spares_files ?_) fun _ =>
        spares_printReported _ _ p
      exact leaves_transferReceiveCommand h.1 h.2

-- ======================================================================= runs

/-- The run has nothing to do with the file. -/
def CliRun.Spares (p : Path) : CliRun Name → Prop
  | .vault invocation => ∀ request, invocation.request = .ok request → request.Spares p
  | .device names command _ => command.Spares names p

theorem CliRun.process_spares {platform : DevicePlatform} {run : CliRun Name} (h : run.Spares p)
    (room : Option Nat) (fs : Fs) : (run.process platform room fs).2 p = fs p := by
  cases run with
  | vault invocation => exact runProcess_spares h room fs
  | device names command stdin => exact spares_runDevice h ⟨fs, stdin, [], room⟩

/-- No sequence of runs of the program, whatever fails in them and however
early their outputs close, changes a file that none of them has to do with. -/
theorem runs_confined (platform : DevicePlatform) (runs : List (CliRun Name × Option Nat)) (fs : Fs)
    (p : Path) (h : ∀ run ∈ runs, run.1.Spares p) : (runAllWithin platform runs fs).2 p = fs p := by
  induction runs generalizing fs with
  | nil => rfl
  | cons run rest ih =>
      obtain ⟨hfirst, hrest⟩ := List.forall_mem_cons.mp h
      obtain ⟨run, room⟩ := run
      exact (ih _ hrest).trans (CliRun.process_spares hfirst room fs)

/-- A vault that is listed, one that is made beside it, and an envelope
received into a file of the same directory. -/
theorem runs_confined_of_sample :
    (runAllWithin DevicePlatform.transparent
        [(.vault (sampleInvocation (.list samplePath) ["correct horse"]), some 3),
          (.vault (sampleInvocation (.init ⟨"", "other.msv"⟩) ["correct horse", "correct horse"]),
            none),
          (.device ⟨fun path => path.fileName, fun text => ⟨"", text⟩⟩
            (.receive { stdin := false, fault := fun _ => false, typed := fun _ => some "" }
              { args := ⟨⟨"", "in"⟩, ⟨"", "keys"⟩, ⟨"", "sender"⟩, some ⟨"", "out"⟩, none, []⟩
                resolve := id
                io := {}
                clock := ⟨0, ⟨0, 0, 0⟩⟩ }) [], none)]
        (noFiles.set samplePath (some [1]))).2 samplePath = some [1] := by
  refine (runs_confined DevicePlatform.transparent _ _ samplePath ?_).trans (Fs.set_self ..)
  refine List.forall_mem_cons.mpr
    ⟨?_, List.forall_mem_cons.mpr ⟨?_, List.forall_mem_singleton.mpr ?_⟩⟩
  · intro request hrequest
    obtain rfl := Except.ok.inj hrequest
    trivial
  · intro request hrequest
    obtain rfl := Except.ok.inj hrequest
    exact outside_of_not_tmpName (by decide) fun htmp => absurd htmp.suffix (by decide)
  · refine ⟨by decide, fun output houtput => ?_⟩
    obtain rfl := Option.some.inj houtput
    decide

end MeissnerSeal.Cli
