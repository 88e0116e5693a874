/-
`meissnerseal device` and `meissnerseal transfer`: two devices exchange
their identities as text, and one sends the other a file.

# Pairing

`device pair` makes a device, shows its identity, and reads the peer's from
standard input, up to a blank line. It saves the device's keypair sealed
under a passphrase, and both identities as text.

# Transfers

`transfer create` and `transfer receive` take the keypair and the peer's
identity from these files. Receiving is `transferReceiveCommand`.
-/
import MeissnerSeal.Cli.Console
import MeissnerSeal.Cli.Receive
import MeissnerSeal.Keys.Pairing

namespace MeissnerSeal.Cli

open ByteCodec ExceptRules TextLines

variable {Name : Type} (platform : DevicePlatform) (names : PathNames Name)

-- =================================================================== input

/-- `char::is_whitespace`. -/
def isWhitespace (c : Char) : Bool :=
  let n := c.toNat
  (0x09 ≤ n && n ≤ 0x0d) || n = 0x20 || n = 0x85 || n = 0xa0 || n = 0x1680
    || (0x2000 ≤ n && n ≤ 0x200a) || n = 0x2028 || n = 0x2029 || n = 0x202f || n = 0x205f
    || n = 0x3000

/-- `text.trim()`. -/
def trim (text : String) : String :=
  String.ofList ((text.toList.dropWhile isWhitespace).reverse.dropWhile isWhitespace).reverse

/-- The input by lines, each with its end. -/
def inputLines : Bytes → List Bytes
  | [] => []
  | b :: bs =>
      if b = 0x0a then [b] :: inputLines bs
      else
        match inputLines bs with
        | [] => [[b]]
        | line :: rest => (b :: line) :: rest

/-- The loop of `read_until_blank_line`. -/
def readLinesUntilBlank (fault : Nat → Bool) : Nat → List Bytes → String → Res (String × List Bytes)
  | i, [], out => if fault i then .error .io else .ok (out, [])
  | i, line :: rest, out => do
      rejectIf (fault i = true) .io
      let line ← okOr (fromUtf8 line) .io
      let line := String.ofList (stripLineEnd line.toList)
      if trim line = "" then return (out, rest)
      else readLinesUntilBlank fault (i + 1) rest (out ++ line ++ "\n")

/-- `read_until_blank_line`: the text, and what is left of the input. -/
def readUntilBlankLine (fault : Nat → Bool) (stdin : Bytes) : Res (String × Bytes) := do
  let (out, rest) ← readLinesUntilBlank fault 0 (inputLines stdin) ""
  return (out, rest.flatten)

/-- `stdin().read_line`. -/
def readLine (fault : Bool) (stdin : Bytes) : Res (String × Bytes) :=
  if fault then .error .io
  else do
    let line ← okOr (fromUtf8 (splitLine stdin).1) .io
    return (line, (splitLine stdin).2)

/-- A program that takes its value off the front of standard input. -/
def fromStdin {α : Type} (read : Bytes → Res (α × Bytes)) : CliM α := fun world =>
  match read world.stdin with
  | .ok (a, stdin) => (.ok a, { world with stdin })
  | .error e => (.error e, world)

-- ================================================================= pairing

/-- `synthetic_pairing_payload`. -/
def syntheticPairingPayload (draws : PairingNonceDraws) (identity : DeviceIdentity)
    (pairingNonce : PairingNonce) : Res PairingPayload := do
  let payload ← orErr (buildPairingPayload platform.kdf draws identity 0x01)
    (.invalidState "pairing payload failed")
  return { payload with protocolVersion := pairingProtocolVersionV1, pairingNonce }

/-- The short authentication string `device pair` shows for the peer. -/
def pairingSas (draws peerDraws : PairingNonceDraws) (identity peer : DeviceIdentity) :
    Res String := do
  let payload ← orErr (buildPairingPayload platform.kdf draws identity 0x01)
    (.invalidState "pairing payload failed")
  let peerPayload ← syntheticPairingPayload platform peerDraws peer payload.pairingNonce
  let transcript ← orErr (computePairingTranscript platform.kdf peerPayload)
    (.invalidState "pairing transcript failed")
  orErr (deriveShortAuthenticationString platform.kdf peerPayload.pairingNonce
    transcript.transcriptHash) (.invalidState "pairing SAS failed")

/-- `save_sealed_keypair`. -/
def saveSealedKeypair (outcome : WriteOutcome) (salt : U8Array 32)
    (draw : Option Nonce) (path : Path)
    (identity : DeviceIdentity) (keypair : DeviceKeypair) (passphrase : Bytes) : FsM Unit := do
  let dkek ← FsM.lift (deriveDkek platform passphrase salt)
  let sealedFile ← FsM.lift (orErrUnwind (sealKeyFile platform draw identity keypair dkek)
    deviceParseError)
  writeFile outcome path (salt.toList ++ sealedFile)

/-- The arguments of `device pair`. -/
structure PairArgs (Name : Type) where
  name : String
  selfKeypair : Name
  selfIdentity : Name
  peerIdentity : Name

/-- Which system calls of one pairing fail. -/
structure PairIo where
  line : Nat → Bool := fun _ => false
  confirm : Bool := false
  keypairWrite : WriteOutcome := .written
  keypairMetadata : Bool := false
  keypairPermissions : Bool := false
  selfWrite : WriteOutcome := .written
  peerWrite : WriteOutcome := .written

/-- One run of `device pair`. -/
structure PairRun (Name : Type) where
  args : PairArgs Name
  resolve : Name → Path
  prompts : Prompts
  io : PairIo
  draws : GenerateDraws
  nonceDraws : PairingNonceDraws
  /-- What building the peer's payload draws, and throws away. -/
  peerNonceDraws : PairingNonceDraws
  salt : U8Array 32
  sealNonce : Option Nonce

/-- `device_pair_command`. What it shows goes to standard error. -/
def devicePairCommand (run : PairRun Name) : CliM Unit := do
  let (identity, keypair) ←
    CliM.lift (orErr (generate platform.toTransferPlatform run.draws run.args.name)
      deviceParseError)
  let identityText := serializeIdentityText identity
  let peerBlock ← fromStdin (readUntilBlankLine run.io.line)
  let peer ← CliM.lift (orErr (deserializeIdentityText peerBlock) deviceParseError)
  let _ ← CliM.lift (pairingSas platform run.nonceDraws run.peerNonceDraws identity peer)
  let confirm ← fromStdin (readLine run.io.confirm)
  CliM.lift (rejectIf (trim confirm ≠ "y" ∧ trim confirm ≠ "Y")
    (.invalidState "pairing aborted — SAS not confirmed"))
  let passphrase ← prompt run.prompts 0
  let keypairFile := run.resolve run.args.selfKeypair
  CliM.files (saveSealedKeypair platform run.io.keypairWrite run.salt run.sealNonce
    keypairFile identity
    keypair (utf8 passphrase))
  CliM.files (restrictOwnerOnly
    { seenMetadata := run.io.keypairMetadata, seenPermissions := run.io.keypairPermissions })
  CliM.files (writeFile run.io.selfWrite (run.resolve run.args.selfIdentity) (utf8 identityText))
  CliM.files (writeFile run.io.peerWrite (run.resolve run.args.peerIdentity)
    (utf8 (serializeIdentityText peer)))
  printLine "Pairing complete."

-- ================================================================ transfers

/-- The arguments of `transfer create`. -/
structure CreateArgs (Name : Type) where
  senderKeypair : Name
  recipientIdentity : Name
  input : Name
  output : Name
  expiresIn : UInt64

/-- One run of `transfer create`: what fails of it, its readings of the
clock, the one of `create_envelope` last, and its draws. -/
structure CreateRun (Name : Type) where
  args : CreateArgs Name
  resolve : Name → Path
  prompts : Prompts
  keypairRead : Bool
  identityRead : Bool
  inputRead : Bool
  outputWrite : WriteOutcome
  /-- `unix_now_millis`. -/
  now : Res Timestamp
  createNow : Timestamp
  draws : EnvelopeDraws

/-- When an envelope of this run expires. -/
def CreateRun.expiresAt (run : CreateRun Name) : Res Timestamp := do
  let now ← run.now
  rejectIf (run.args.expiresIn.toNat * 1000 ≥ 2 ^ 64) (.invalidState "expiry overflow")
  rejectIf (now.toNat + run.args.expiresIn.toNat * 1000 ≥ 2 ^ 64) (.invalidState "expiry overflow")
  return now + run.args.expiresIn * 1000

/-- `transfer_create_command`, up to its write. -/
def createdEnvelope (run : CreateRun Name) (passphrase : Bytes) (fs : Fs) :
    Res TransferEnvelope := do
  let (sender, senderKeypair) ← loadSealedKeypair platform run.keypairRead fs
    (run.resolve run.args.senderKeypair) passphrase
  let text ← readToString run.identityRead fs (run.resolve run.args.recipientIdentity)
  let recipient ← orErr (deserializeIdentityText text) deviceParseError
  let plaintext ← (readFile run.inputRead (run.resolve run.args.input) fs).1
  let expiresAt ← run.expiresAt
  orErrUnwind (createSignedTransferEnvelope platform.toTransferPlatform run.createNow run.draws
    sender.deviceId senderKeypair (some recipient.deviceId) recipient.classicalPublicKey
    recipient.pqcPublicKey plaintext (some expiresAt)) .crypto

/-- `transfer_create_command`. -/
def transferCreateCommand (run : CreateRun Name) : CliM Unit := do
  let passphrase ← prompt run.prompts 0
  let envelope ← CliM.files (FsM.reading (createdEnvelope platform run (utf8 passphrase)))
  CliM.files (writeFile run.outputWrite (run.resolve run.args.output) (envelopeToBytes envelope))
  printLine ("Transfer envelope written to " ++ names.display run.args.output ++ ".")

/-- The commands over devices. -/
inductive DeviceCommand (Name : Type) where
  | pair (run : PairRun Name)
  | list
  | revoke
  | create (run : CreateRun Name)
  | receive (prompts : Prompts) (run : ReceiveRun Name)

/-- `device_command` and `transfer_command`. -/
def runDevice : DeviceCommand Name → CliM Unit
  | .pair run => devicePairCommand platform run
  | .list => CliM.lift (.error (.invalidState "command is not wired in MVP-0 CLI yet"))
  | .revoke => CliM.lift (.error (.invalidState "command is not wired in MVP-0 CLI yet"))
  | .create run => transferCreateCommand platform names run
  | .receive prompts run => do
      let passphrase ← prompt prompts 0
      let plaintext ← CliM.files (transferReceiveCommand platform names
        { run with args := { run.args with keypairPassphrase := utf8 passphrase } })
      printReported lineBuffered plaintext

end MeissnerSeal.Cli
