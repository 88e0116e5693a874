/-
`meissnerseal transfer receive`: the command over the file system.

# Names

What the user types is a name; which file it leads to is up to the
operating system, run by run (`ReceiveRun.resolve`: the working directory,
links). The file of the seen identifiers is named after the output, or
after the envelope where the output is the terminal
(`defaultSeenIdsPath`).

# Order

The command reads (`receivePlaintext`), then saves the seen identifiers,
then releases the plaintext. What a run can do to the files is said once
(`transferReceiveCommand_cases`).
-/
import MeissnerSeal.Keys.IdentityText
import MeissnerSeal.Vault.Fs

namespace MeissnerSeal

open ByteCodec ExceptRules

-- ================================================================== inputs

/-- Path names: their printed form, and the name of a printed form. -/
structure PathNames (Name : Type) where
  /-- `name.display()`. -/
  display : Name → String
  /-- `PathBuf::from(text)`. -/
  ofText : String → Name

/-- The arguments of `transfer receive`. -/
structure ReceiveArgs (Name : Type) where
  envelope : Name
  recipientKeypair : Name
  senderIdentity : Name
  output : Option Name
  seenIds : Option Name
  keypairPassphrase : Bytes

/-- What becomes of one `std::fs::write`: done, refused before the file is
touched, or broken off behind some of the bytes. -/
inductive WriteOutcome where
  | written
  | refused
  | torn (length : Nat)
  deriving DecidableEq

/-- Which system calls of one run fail. A file that is not there is no
failure of the first. -/
structure ReceiveIo where
  seenRead : Bool := false
  envelopeRead : Bool := false
  keypairRead : Bool := false
  identityRead : Bool := false
  seenWrite : WriteOutcome := .written
  seenMetadata : Bool := false
  seenPermissions : Bool := false
  outputWrite : WriteOutcome := .written
  stdoutWrite : Bool := false
  deriving DecidableEq

/-- The clock readings of one run, in order. -/
structure ReceiveClock where
  wire : Timestamp
  opening : OpenClock

/-- One run of the command. -/
structure ReceiveRun (Name : Type) where
  args : ReceiveArgs Name
  /-- The file a name leads to. -/
  resolve : Name → Path
  io : ReceiveIo
  clock : ReceiveClock

variable {Name : Type} (platform : DevicePlatform) (names : PathNames Name)

-- ================================================================= reading

/-- `default_seen_ids_path`. -/
def defaultSeenIdsPath (envelope : Name) (output : Option Name) : Name :=
  match output with
  | some output => names.ofText (names.display output ++ ".seen")
  | none => names.ofText (names.display envelope ++ ".seen")

/-- The file of the seen identifiers. -/
def ReceiveRun.seenFile (run : ReceiveRun Name) : Path :=
  run.resolve (run.args.seenIds.getD (defaultSeenIdsPath names run.args.envelope run.args.output))

/-- The file the plaintext goes to, if it does not go to the terminal. -/
def ReceiveRun.outputFile (run : ReceiveRun Name) : Option Path := run.args.output.map run.resolve

/-- `load_seen_ids`. -/
def loadSeenIds (fault : Bool) (fs : Fs) (path : Path) : Res SeenEnvelopeIds :=
  if fault then .error .io
  else
    match fs path with
    | some bytes => orErr (SeenEnvelopeIds.fromBytes bytes) .crypto
    | none => .ok .new

/-- `device_parse_error`. -/
def deviceParseError : CoreError := .invalidState "device file is invalid"

def keypairFileSaltLen : Nat := 32
def keypairFileKdfParams : Argon2Params := ⟨65536, 3, 4, 32⟩

/-- `derive_dkek`. -/
def deriveDkek (passphrase : Bytes) (salt : U8Array 32) : Res Key :=
  orErr (deriveDeviceKeypairKey platform.kdf passphrase salt keypairFileKdfParams) .crypto

/-- `load_sealed_keypair`. -/
def loadSealedKeypair (fault : Bool) (fs : Fs) (path : Path) (passphrase : Bytes) :
    Res (DeviceIdentity × DeviceKeypair) := do
  let bytes ← (readFile fault path fs).1
  rejectIf (bytes.length < keypairFileSaltLen) (.invalidState "device keypair file is too short")
  let salt ← okOr (tryArray 32 (bytes.take keypairFileSaltLen))
    (.invalidState "keypair file salt length error")
  let dkek ← deriveDkek platform passphrase salt
  orErr (openKeyFile platform (bytes.drop keypairFileSaltLen) dkek) deviceParseError

/-- `std::fs::read_to_string`. -/
def readToString (fault : Bool) (fs : Fs) (path : Path) : Res String := do
  let bytes ← (readFile fault path fs).1
  okOr (fromUtf8 bytes) .io

/-- The envelope a run reads. -/
def ReceiveRun.envelopeRead (run : ReceiveRun Name) (fs : Fs) : Res TransferEnvelope := do
  let bytes ← (readFile run.io.envelopeRead (run.resolve run.args.envelope) fs).1
  orErr (envelopeFromBytes platform.toTransferPlatform run.clock.wire bytes) .crypto

/-- `transfer_receive_command` up to the opening: it reads files, and
returns the plaintext with the seen identifiers to save. -/
def receivePlaintext (run : ReceiveRun Name) (fs : Fs) : Res (Bytes × SeenEnvelopeIds) := do
  let seen ← loadSeenIds run.io.seenRead fs (run.seenFile names)
  let envelope ← run.envelopeRead platform fs
  let (recipientIdentity, recipientKeypair) ← loadSealedKeypair platform run.io.keypairRead fs
    (run.resolve run.args.recipientKeypair) run.args.keypairPassphrase
  let text ← readToString run.io.identityRead fs (run.resolve run.args.senderIdentity)
  let sender ← orErr (deserializeIdentityText text) deviceParseError
  let trustedSender ← orErr (TrustedSender.fromVerified { sender with trustState := .verified })
    (.invalidState "sender identity is not in a trusted state")
  match openReceivedTransferEnvelope platform.toTransferPlatform run.clock.opening envelope
    recipientKeypair recipientIdentity.classicalPublicKey trustedSender seen with
  | (.error _, _) => .error .crypto
  | (.ok plaintext, seen) => .ok (plaintext, seen)

-- ================================================================= writing

/-- `std::fs::write`. -/
def writeFile (outcome : WriteOutcome) (path : Path) (bytes : Bytes) : FsM Unit := fun fs =>
  match outcome with
  | .written => (.ok (), fs.set path (some bytes))
  | .refused => (.error .io, fs)
  | .torn length => (.error .io, fs.set path (some (bytes.take length)))

/-- `restrict_owner_only`. -/
def restrictOwnerOnly (io : ReceiveIo) : FsM Unit := do
  syncCall io.seenMetadata
  syncCall io.seenPermissions

/-- Where the plaintext goes; what goes to the terminal is returned. -/
def releasePlaintext (run : ReceiveRun Name) (plaintext : Bytes) : FsM Bytes :=
  match run.outputFile with
  | some output => do
      writeFile run.io.outputWrite output plaintext
      return []
  | none => do
      syncCall run.io.stdoutWrite
      return plaintext

/-- `transfer_receive_command`. -/
def transferReceiveCommand (run : ReceiveRun Name) : FsM Bytes := do
  let (plaintext, seen) ← FsM.reading (receivePlaintext platform names run)
  writeFile run.io.seenWrite (run.seenFile names) seen.toBytes
  restrictOwnerOnly run.io
  releasePlaintext run plaintext

-- ============================================================ what a run does

variable {platform names} {run : ReceiveRun Name} {fs : Fs}

/-- The plaintext of a run is that of the envelope it reads, opened against
the seen identifiers it loads. -/
theorem receivePlaintext_eq_ok {plaintext : Bytes} {seen' : SeenEnvelopeIds}
    (h : receivePlaintext platform names run fs = .ok (plaintext, seen')) :
    ∃ seen envelope params, loadSeenIds run.io.seenRead fs (run.seenFile names) = .ok seen
      ∧ run.envelopeRead platform fs = .ok envelope
      ∧ openEnvelope platform.toTransferPlatform run.clock.opening envelope params seen
        = (.ok plaintext, seen') := by
  simp only [receivePlaintext, bind_eq_ok] at h
  obtain ⟨seen, hseen, envelope, henvelope, ⟨recipientIdentity, recipientKeypair⟩, -,
    text, -, sender, -, trustedSender, -, h⟩ := h
  refine ⟨seen, envelope, ⟨recipientKeypair.classicalPrivateKey,
    recipientIdentity.classicalPublicKey, recipientKeypair.pqcPrivateKey, trustedSender⟩, hseen,
    henvelope, ?_⟩
  split at h
  case h_1 => cases h
  case h_2 hrun =>
    obtain ⟨rfl, rfl⟩ := Prod.mk.inj (Except.ok.inj h)
    exact hrun

theorem leaves_writeFile {path p : Path} (h : p ≠ path) (outcome : WriteOutcome) (bytes : Bytes) :
    (writeFile outcome path bytes).Leaves p := by
  intro fs
  cases outcome with
  | written => exact Fs.set_of_ne _ _ h
  | refused => rfl
  | torn length => exact Fs.set_of_ne _ _ h

theorem leaves_restrictOwnerOnly (io : ReceiveIo) (p : Path) : (restrictOwnerOnly io).Leaves p :=
  (leaves_syncCall _ p).bind fun _ => leaves_syncCall _ p

/-- A release writes no file but the output. -/
theorem leaves_releasePlaintext {p : Path}
    (hp : ∀ output, run.outputFile = some output → p ≠ output)
    (plaintext : Bytes) : (releasePlaintext run plaintext).Leaves p := by
  unfold releasePlaintext
  cases houtput : run.outputFile with
  | none => exact (leaves_syncCall _ p).bind fun _ => FsM.leaves_pure _ p
  | some output =>
      exact (leaves_writeFile (hp output houtput) _ _).bind fun _ => FsM.leaves_pure _ p

/-- A run changes the file of the seen identifiers and the output, and no
other file. -/
theorem leaves_transferReceiveCommand {p : Path} (hseen : p ≠ run.seenFile names)
    (hp : ∀ output, run.outputFile = some output → p ≠ output) :
    (transferReceiveCommand platform names run).Leaves p := by
  refine (FsM.leaves_reading _ p).bind fun opened => ?_
  refine (leaves_writeFile hseen _ _).bind fun _ => ?_
  exact (leaves_restrictOwnerOnly _ p).bind fun _ => leaves_releasePlaintext hp _

/-- What a run does to the file of the seen identifiers, where that is not
its output: it fails and leaves it, or it saves the identifiers with the
new one, as far as the write comes. -/
theorem transferReceiveCommand_cases (platform : DevicePlatform) (fs : Fs)
    (hoff : ∀ output, run.outputFile = some output → run.seenFile names ≠ output) :
    (∃ e, (transferReceiveCommand platform names run fs).1 = .error e
        ∧ (transferReceiveCommand platform names run fs).2 (run.seenFile names)
          = fs (run.seenFile names))
      ∨ ∃ plaintext seen n, receivePlaintext platform names run fs = .ok (plaintext, seen)
        ∧ (transferReceiveCommand platform names run fs).2 (run.seenFile names)
          = some (seen.toBytes.take n) := by
  cases hplaintext : receivePlaintext platform names run fs with
  | error e =>
      have hrun : transferReceiveCommand platform names run fs = (.error e, fs) := by
        rw [transferReceiveCommand, FsM.reading_bind, hplaintext]
      rw [hrun]
      exact .inl ⟨e, rfl, rfl⟩
  | ok opened =>
      obtain ⟨plaintext, seen⟩ := opened
      have hbehind : (do
          restrictOwnerOnly run.io
          releasePlaintext run plaintext : FsM Bytes).Leaves (run.seenFile names) :=
        (leaves_restrictOwnerOnly _ _).bind fun _ => leaves_releasePlaintext hoff plaintext
      have hrun : transferReceiveCommand platform names run fs
          = (writeFile run.io.seenWrite (run.seenFile names) seen.toBytes >>= fun _ => do
              restrictOwnerOnly run.io
              releasePlaintext run plaintext : FsM Bytes) fs := by
        rw [transferReceiveCommand, FsM.reading_bind, hplaintext]
      rw [hrun, FsM.bind_apply]
      cases hwrite : run.io.seenWrite with
      | written =>
          refine .inr ⟨plaintext, seen, seen.toBytes.length, rfl, ?_⟩
          rw [List.take_length]
          exact (hbehind _).trans (Fs.set_self ..)
      | refused => exact .inl ⟨.io, rfl, rfl⟩
      | torn n => exact .inr ⟨plaintext, seen, n, rfl, Fs.set_self ..⟩

end MeissnerSeal
