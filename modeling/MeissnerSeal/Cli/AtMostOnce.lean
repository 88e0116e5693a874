/-
`transfer receive` over sequences of runs: what is released twice, and
what is not.

# Stores

A run keeps the identifiers it has seen in a file of its own output's
name. Two runs that receive one envelope to two outputs ask two files, and
both release it (`released_twice`).

# At most once

Where a run that reads an envelope released before asks the file that
holds its identifier, nothing else is written over such a file, and the clock
does not go back, no envelope is released again before it expires
(`release_atMostOnce`): what was released stays in its file
(`Kept.after_run`), a run that asks for it gets nothing
(`ReceiveRuns.refuses`), and a save broken off half way leaves a file no later
run accepts. A clock set back would make an identifier that has been dropped
with its expiry a new one.
-/
import MeissnerSeal.Cli.Receive

namespace MeissnerSeal

open ByteCodec ExceptRules ReplayWindow

-- ==================================================================== runs

/-- A plaintext released: its envelope's identifier and expiry with the
time, and the file the identifier was saved in. -/
structure Release where
  acceptance : Acceptance EnvelopeId Timestamp
  seenFile : Path

/-- The clock does not go back in a run that starts at `now`. -/
structure ReceiveClock.Monotone (clock : ReceiveClock) (now : Timestamp) : Prop where
  wire : now ≤ clock.wire
  validate : clock.wire ≤ clock.opening.validate
  opening : clock.opening.Monotone

/-- Runs of the command, one after the other, each of which meets the
condition when it starts. Between them other programs change files, but
none that holds the identifier of what was released. -/
inductive ReceiveRuns {Name : Type} (platform : DevicePlatform) (names : PathNames Name)
    (meets : Fs → List Release → ReceiveRun Name → Prop) :
    Fs → Timestamp → List Release → Prop where
  | started (fs : Fs) (now : Timestamp) : ReceiveRuns platform names meets fs now []
  | released {fs fs' : Fs} {now : Timestamp} {log : List Release} {run : ReceiveRun Name}
      {envelope : TransferEnvelope} {stdout : Bytes}
      (h : ReceiveRuns platform names meets fs now log)
      (hmeets : meets fs log run) (hclock : run.clock.Monotone now)
      (henvelope : run.envelopeRead platform fs = .ok envelope)
      (hrun : transferReceiveCommand platform names run fs = (.ok stdout, fs')) :
      ReceiveRuns platform names meets fs' run.clock.opening.insert
        (log ++ [⟨⟨envelope.envelopeId, envelope.expiresAt, run.clock.opening.insert⟩,
          run.seenFile names⟩])
  | failed {fs fs' : Fs} {now : Timestamp} {log : List Release} {run : ReceiveRun Name}
      {e : CoreError}
      (h : ReceiveRuns platform names meets fs now log) (hmeets : meets fs log run)
      (hclock : run.clock.Monotone now)
      (hrun : transferReceiveCommand platform names run fs = (.error e, fs')) :
      ReceiveRuns platform names meets fs' run.clock.opening.insert log
  | others {fs fs' : Fs} {now now' : Timestamp} {log : List Release}
      (h : ReceiveRuns platform names meets fs now log)
      (hkeep : ∀ release ∈ log, fs' release.seenFile = fs release.seenFile) (hle : now ≤ now') :
      ReceiveRuns platform names meets fs' now' log

/-- The file of the seen identifiers is left to the command. -/
def DefaultSeenIds {Name : Type} (_ : Fs) (_ : List Release) (run : ReceiveRun Name) : Prop :=
  run.args.seenIds = none

/-- The run asks the file that holds the identifier of the envelope it
reads, if that was released, and writes its output over no file of
identifiers. -/
structure AsksItsStore {Name : Type} (platform : DevicePlatform) (names : PathNames Name) (fs : Fs)
    (log : List Release) (run : ReceiveRun Name) : Prop where
  own : ∀ output, run.outputFile = some output → run.seenFile names ≠ output
  others : ∀ output, run.outputFile = some output → ∀ release ∈ log, release.seenFile ≠ output
  shared : ∀ envelope, run.envelopeRead platform fs = .ok envelope → ∀ release ∈ log,
    release.acceptance.id = envelope.envelopeId → release.seenFile = run.seenFile names

/-- Nothing is released again before it expires. -/
def AtMostOnce (log : List Release) : Prop :=
  log.Pairwise (fun first second => first.acceptance.id = second.acceptance.id →
      Expired second.acceptance.time first.acceptance.expiry)
    ∧ (log.map fun release => (release.acceptance.id, release.acceptance.expiry)).Nodup

-- =============================================================== what is kept

variable {Name : Type} {platform : DevicePlatform} {names : PathNames Name}
  {meets : Fs → List Release → ReceiveRun Name → Prop} {fs fs' : Fs} {now now' : Timestamp}
  {log : List Release} {release : Release} {run : ReceiveRun Name}

theorem ReceiveClock.Monotone.le {clock : ReceiveClock} (h : clock.Monotone now) :
    now ≤ clock.opening.evict ∧ now ≤ clock.opening.insert := by
  have hevict : now ≤ clock.opening.evict :=
    le_trans (le_trans h.wire h.validate) h.opening.evict
  exact ⟨hevict, le_trans hevict h.opening.insert⟩

/-- The file of a release is there, and whoever reads identifiers from it
finds the release among them, until it expires. -/
def Kept (fs : Fs) (now : Timestamp) (release : Release) : Prop :=
  ∃ bytes, fs release.seenFile = some bytes ∧ ∀ seen, SeenEnvelopeIds.fromBytes bytes = .ok seen →
    Remembers [release.acceptance] now seen.entries

theorem Kept.mono (h : Kept fs now release) (hsame : fs' release.seenFile = fs release.seenFile)
    (hle : now ≤ now') : Kept fs' now' release := by
  obtain ⟨bytes, hbytes, hremembers⟩ := h
  exact ⟨bytes, hsame.trans hbytes, fun seen hseen => (hremembers seen hseen).mono hle⟩

/-- A run that asks the file finds the release. -/
theorem Kept.loaded (h : Kept fs now release) {fault : Bool} {seen : SeenEnvelopeIds}
    (hload : loadSeenIds fault fs release.seenFile = .ok seen) :
    Remembers [release.acceptance] now seen.entries := by
  obtain ⟨bytes, hbytes, hremembers⟩ := h
  unfold loadSeenIds at hload
  split at hload
  case isTrue => cases hload
  case isFalse =>
    rw [hbytes] at hload
    exact hremembers seen (orErr_eq_ok.mp hload)

/-- Identifiers saved, whole or in part, are read back as they were. -/
theorem kept_of_saved {seen : SeenEnvelopeIds} {n : Nat}
    (hsaved : fs release.seenFile = some (seen.toBytes.take n))
    (hremembers : Remembers [release.acceptance] now seen.entries) : Kept fs now release := by
  refine ⟨_, hsaved, fun seen' hseen' => ?_⟩
  rw [SeenEnvelopeIds.eq_of_fromBytes_take hseen']
  exact hremembers

/-- Through a run, what was released before stays in its file. -/
theorem Kept.after_run (platform : DevicePlatform) (h : Kept fs now release)
    (hclock : run.clock.Monotone now)
    (hown : ∀ output, run.outputFile = some output → run.seenFile names ≠ output)
    (hother : ∀ output, run.outputFile = some output → release.seenFile ≠ output) :
    Kept (transferReceiveCommand platform names run fs).2 run.clock.opening.insert release := by
  by_cases hfile : release.seenFile = run.seenFile names
  · rcases transferReceiveCommand_cases platform fs hown with
      ⟨e, -, hsame⟩ | ⟨plaintext, seen', n, hplaintext, hsaved⟩
    · refine h.mono ?_ hclock.le.2
      rw [hfile]
      exact hsame
    · obtain ⟨seen, envelope, params, hload, -, hopen⟩ := receivePlaintext_eq_ok hplaintext
      obtain ⟨-, -, hentries⟩ := accepted_of_open hopen
      rw [← hfile] at hload hsaved
      refine kept_of_saved hsaved ?_
      rw [hentries]
      have hevicted := SeenEnvelopeIds.remembers_evictExpired (h.loaded hload) hclock.le.1
      exact (hevicted.mono hclock.opening.insert).evict (UInt64.le_refl _) fun _ hmem _ =>
        List.mem_append_left _ hmem
  · exact h.mono (leaves_transferReceiveCommand hfile hother fs) hclock.le.2

/-- A release is kept from then on, and was none before that
has not expired. -/
theorem kept_of_released {envelope : TransferEnvelope} {stdout : Bytes}
    (hown : ∀ output, run.outputFile = some output → run.seenFile names ≠ output)
    (henvelope : run.envelopeRead platform fs = .ok envelope)
    (hrun : transferReceiveCommand platform names run fs = (.ok stdout, fs')) :
    Kept fs' run.clock.opening.insert
        ⟨⟨envelope.envelopeId, envelope.expiresAt, run.clock.opening.insert⟩, run.seenFile names⟩
      ∧ ¬ Expired run.clock.opening.insert envelope.expiresAt
      ∧ ∀ release, Kept fs now release → release.seenFile = run.seenFile names →
        run.clock.Monotone now → release.acceptance.id = envelope.envelopeId →
        Expired run.clock.opening.insert release.acceptance.expiry := by
  rcases transferReceiveCommand_cases platform fs hown with
    ⟨e, hfailed, -⟩ | ⟨plaintext, seen', n, hplaintext, hsaved⟩
  · rw [hrun] at hfailed
    cases hfailed
  obtain ⟨seen, envelope', params, hload, henvelope', hopen⟩ := receivePlaintext_eq_ok hplaintext
  rw [henvelope, Except.ok.injEq] at henvelope'
  subst henvelope'
  obtain ⟨hlive, hnew, hentries⟩ := accepted_of_open hopen
  rw [hrun] at hsaved
  refine ⟨kept_of_saved hsaved ?_, hlive, ?_⟩
  · intro a ha
    rw [List.mem_singleton.mp ha, hentries]
    exact .inr (List.mem_append_right _ (List.mem_singleton_self _))
  · intro release hkept hfile hclock hid
    rw [← hfile] at hload
    have hevicted := SeenEnvelopeIds.remembers_evictExpired (hkept.loaded hload) hclock.le.1
    rcases hevicted release.acceptance (List.mem_singleton_self _) with hexpired | hmem
    · exact hexpired.mono hclock.opening.insert
    · rw [hid] at hmem
      exact absurd (List.mem_map_of_mem hmem) hnew

-- ============================================================== at most once

/-- What holds after runs that ask their stores. -/
structure ReleasesHold (fs : Fs) (now : Timestamp) (log : List Release) : Prop where
  kept : ∀ release ∈ log, Kept fs now release
  noReplay : NoReplay (log.map Release.acceptance)
  live : ∀ a ∈ log.map Release.acceptance, ¬ Expired a.time a.expiry

theorem ReceiveRuns.hold (h : ReceiveRuns platform names (AsksItsStore platform names) fs now log) :
    ReleasesHold fs now log := by
  induction h with
  | started fs now =>
      exact ⟨fun _ h => (nomatch h), List.Pairwise.nil, fun _ h => (nomatch h)⟩
  | @released fs fs' now log run envelope stdout h hmeets hclock henvelope hrun ih =>
      obtain ⟨hkept, hlive, hfresh⟩ :=
        @kept_of_released _ _ _ _ _ now _ _ _ hmeets.own henvelope hrun
      refine ⟨fun release hrelease => ?_, ?_, fun a ha => ?_⟩
      · rcases List.mem_append.mp hrelease with hold | hnew
        · have hstays := (ih.kept release hold).after_run platform hclock hmeets.own
            fun output houtput => hmeets.others output houtput release hold
          rwa [hrun] at hstays
        · rw [List.mem_singleton.mp hnew]
          exact hkept
      · rw [List.map_append]
        refine List.pairwise_append.mpr ⟨ih.noReplay, List.pairwise_singleton .., ?_⟩
        intro first hfirst second hsecond hid
        obtain ⟨release, hrelease, rfl⟩ := List.mem_map.mp hfirst
        obtain rfl := List.mem_singleton.mp hsecond
        exact hfresh release (ih.kept release hrelease)
          (hmeets.shared envelope henvelope release hrelease hid) hclock hid
      · rw [List.map_append] at ha
        rcases List.mem_append.mp ha with hold | hnew
        · exact ih.live a hold
        · rw [List.mem_singleton.mp hnew]
          exact hlive
  | @failed fs fs' now log run e h hmeets hclock hrun ih =>
      refine ⟨fun release hrelease => ?_, ih.noReplay, ih.live⟩
      have hstays := (ih.kept release hrelease).after_run platform hclock hmeets.own
        fun output houtput => hmeets.others output houtput release hrelease
      rwa [hrun] at hstays
  | others _ hkeep hle ih =>
      exact ⟨fun release hrelease => (ih.kept release hrelease).mono (hkeep release hrelease) hle,
        ih.noReplay, ih.live⟩

/-- In every sequence of runs that ask their stores, no envelope is released
again before it expires. -/
theorem release_atMostOnce
    (h : ReceiveRuns platform names (AsksItsStore platform names) fs now log) : AtMostOnce log := by
  have hhold := h.hold
  have hnodup := hhold.noReplay.nodup hhold.live
  rw [List.map_map] at hnodup
  exact ⟨List.pairwise_map.mp hhold.noReplay, hnodup⟩

/-- A run that asks for what has been released, and has not expired,
gets nothing. -/
theorem ReceiveRuns.refuses {envelope : TransferEnvelope}
    (h : ReceiveRuns platform names (AsksItsStore platform names) fs now log)
    (hmeets : AsksItsStore platform names fs log run) (hclock : run.clock.Monotone now)
    (henvelope : run.envelopeRead platform fs = .ok envelope) (hrelease : release ∈ log)
    (hid : release.acceptance.id = envelope.envelopeId)
    (hlive : ¬ Expired run.clock.opening.insert release.acceptance.expiry) :
    ∃ e fs', transferReceiveCommand platform names run fs = (.error e, fs') := by
  cases hrun : transferReceiveCommand platform names run fs with
  | mk result fs' =>
      cases result with
      | error e => exact ⟨e, fs', rfl⟩
      | ok stdout =>
          obtain ⟨-, -, hfresh⟩ := @kept_of_released _ _ _ _ _ now _ _ _ hmeets.own henvelope hrun
          have hkept := h.hold.kept release hrelease
          have hfile := hmeets.shared envelope henvelope release hrelease hid
          exact absurd (hfresh release hkept hfile hclock hid) hlive

-- =============================================================== two outputs

/-- Names that are what they print. -/
def PathNames.plain : PathNames String := ⟨id, id⟩

/-- A run at time zero over the files `envelope`, `keypair` and
`identity`. -/
def sampleRun (output : String) : ReceiveRun String where
  args :=
    { envelope := "envelope"
      recipientKeypair := "keypair"
      senderIdentity := "identity"
      output := some output
      seenIds := none
      keypairPassphrase := [] }
  resolve name := ⟨"", name⟩
  io := {}
  clock := ⟨0, ⟨0, 0, 0⟩⟩

theorem sampleRun_monotone (output : String) : (sampleRun output).clock.Monotone 0 :=
  ⟨UInt64.le_refl 0, UInt64.le_refl 0, UInt64.le_refl 0, UInt64.le_refl 0⟩

/-- A run without faults that opens its envelope. -/
theorem transferReceiveCommand_of_opened {output : String} {plaintext : Bytes}
    {seen : SeenEnvelopeIds}
    (h : receivePlaintext platform PathNames.plain (sampleRun output) fs = .ok (plaintext, seen)) :
    transferReceiveCommand platform PathNames.plain (sampleRun output) fs
      = (.ok [], (fs.set ⟨"", output ++ ".seen"⟩ (some seen.toBytes)).set ⟨"", output⟩
        (some plaintext)) := by
  rw [transferReceiveCommand, FsM.reading_bind, h]
  rfl

def envelopeFile : Path := ⟨"", "envelope"⟩
def keypairFile : Path := ⟨"", "keypair"⟩
def identityFile : Path := ⟨"", "identity"⟩

/-- What a run needs of the file system to open the envelope. -/
structure SampleFiles (device : DeviceIdentity) (keypairBytes : Bytes) (envelope : TransferEnvelope)
    (fs : Fs) : Prop where
  envelope : fs envelopeFile = some (envelopeToBytes envelope)
  keypair : fs keypairFile = some ((List.replicate 32 0) ++ keypairBytes)
  identity : fs identityFile = some (utf8 (serializeIdentityText device))

/-- The files a run needs are left alone. -/
theorem SampleFiles.congr {device : DeviceIdentity} {keypairBytes : Bytes}
    {envelope : TransferEnvelope} (h : SampleFiles device keypairBytes envelope fs)
    (hsame : ∀ p ∈ [envelopeFile, keypairFile, identityFile], fs' p = fs p) :
    SampleFiles device keypairBytes envelope fs' where
  envelope := (hsame envelopeFile (by decide)).trans h.envelope
  keypair := (hsame keypairFile (by decide)).trans h.keypair
  identity := (hsame identityFile (by decide)).trans h.identity

/-- Another envelope is put in the place of the first. -/
theorem SampleFiles.replace {device : DeviceIdentity} {keypairBytes : Bytes}
    {envelope : TransferEnvelope} (h : SampleFiles device keypairBytes envelope fs)
    (envelope' : TransferEnvelope) : SampleFiles device keypairBytes envelope'
      (fs.set envelopeFile (some (envelopeToBytes envelope'))) := by
  constructor
  · exact Fs.set_self ..
  · rw [Fs.set_of_ne _ _ (by decide)]
    exact h.keypair
  · rw [Fs.set_of_ne _ _ (by decide)]
    exact h.identity

/-- A device, its sealed keypair and envelopes to it: any run opens the
envelope whose file of identifiers is not there. -/
theorem sample_opened :
    ∃ (device : DeviceIdentity) (keypairBytes : Bytes), ∀ id : EnvelopeId,
      ∃ envelope : TransferEnvelope, envelope.envelopeId = id ∧ envelope.expiresAt = none
      ∧ ∀ (fs : Fs) (output : String), SampleFiles device keypairBytes envelope fs →
        (sampleRun output).envelopeRead DevicePlatform.transparent fs = .ok envelope
        ∧ (fs ⟨"", output ++ ".seen"⟩ = none →
          ∃ seen, receivePlaintext DevicePlatform.transparent PathNames.plain (sampleRun output) fs
            = .ok ([1, 2, 3], seen)) := by
  obtain ⟨device, keypair, hdevice, hvalid, hmatch, hsealed⟩ :=
    sample_device DevicePlatform.transparent
  obtain ⟨keypairBytes, hseal⟩ := hsealed device rfl fun _ h => h
  have hkey := (generate_eq_ok hdevice).2.2.1
  obtain ⟨seed, hseed⟩ := hmatch.signing _ hkey
  have hopenFile := openKeyFile_of_signing TransferPlatform.transparent_correct hvalid
    hmatch.classical
    hkey hseed hseal
  have htext : deserializeIdentityText (serializeIdentityText device) = .ok device :=
    deserializeIdentityText_of_generate hdevice (by decide) (by decide)
  refine ⟨device, keypairBytes, fun id => ?_⟩
  obtain ⟨envelope, henvelope⟩ : ∃ envelope, createEnvelope TransferPlatform.transparent 0
      { sampleEnvelopeDraws with envelopeId := id }
      (signedParams device keypair none device [1, 2, 3] none) = .ok envelope :=
    exists_createEnvelope TransferPlatform.transparent_correct.toAgrees (fun _ _ => rfl) rfl
      not_expired_none (.inr fun h => nomatch h)
        (openerOf_generated hdevice hdevice none [1, 2, 3] none)
      (by show 3 + 70 < 2 ^ 32; decide)
  have hfrom := CreatedFrom.of_create henvelope
  have hexpiry : envelope.expiresAt = none := hfrom.expiresAt
  refine ⟨envelope, hfrom.envelopeId, hexpiry, fun fs output hfiles => ?_⟩
  have hread : (sampleRun output).envelopeRead DevicePlatform.transparent fs = .ok envelope := by
    have hlive : ¬ Expired 0 envelope.expiresAt := by
      rw [hexpiry]
      exact not_expired_none
    have hwire : envelopeFromBytes TransferPlatform.transparent 0 (envelopeToBytes envelope)
        = .ok envelope := by
      rw [hfrom.fromBytes_iff hlive, if_pos (by show 3 + 86 < 2 ^ 32; decide)]
    have hbytes : readFile false envelopeFile fs = (.ok (envelopeToBytes envelope), fs) := by
      rw [readFile, hfiles.envelope]
      rfl
    show ((readFile false envelopeFile fs).1 >>= fun bytes => orErr (envelopeFromBytes
      TransferPlatform.transparent 0 bytes) CoreError.crypto) = _
    rw [hbytes, ok_bind, hwire, orErr_ok]
  refine ⟨hread, fun hseen => ?_⟩
  have hload : loadSeenIds (sampleRun output).io.seenRead fs
      ((sampleRun output).seenFile PathNames.plain) = .ok .new := by
    show loadSeenIds false fs ⟨"", output ++ ".seen"⟩ = _
    rw [loadSeenIds, if_neg (by decide), hseen]
  have hkeypair : loadSealedKeypair DevicePlatform.transparent (sampleRun output).io.keypairRead fs
      ((sampleRun output).resolve (sampleRun output).args.recipientKeypair)
      (sampleRun output).args.keypairPassphrase = .ok (device, keypair) := by
    have hbytes : readFile false keypairFile fs
        = (.ok (List.replicate 32 0 ++ keypairBytes), fs) := by
      rw [readFile, hfiles.keypair]
      rfl
    have hlong : ¬ (List.replicate 32 (0 : UInt8) ++ keypairBytes).length < keypairFileSaltLen := by
      rw [List.length_append, List.length_replicate, keypairFileSaltLen]
      omega
    have hsalt : (List.replicate 32 (0 : UInt8) ++ keypairBytes).take keypairFileSaltLen
        = (List.Vector.replicate 32 (0 : UInt8)).toList := List.take_left' List.length_replicate
    have hrest : (List.replicate 32 (0 : UInt8) ++ keypairBytes).drop keypairFileSaltLen
        = keypairBytes := List.drop_left' List.length_replicate
    have hdkek : deriveDkek DevicePlatform.transparent [] (List.Vector.replicate 32 0)
        = .ok sampleDkek := rfl
    show loadSealedKeypair DevicePlatform.transparent false fs keypairFile [] = _
    rw [loadSealedKeypair, hbytes, ok_bind, rejectIf_neg _ hlong, ok_bind, hsalt, tryArray_toList,
      okOr_some, ok_bind, hdkek, ok_bind, hrest, hopenFile, orErr_ok]
  have hidentity : readToString (sampleRun output).io.identityRead fs
      ((sampleRun output).resolve (sampleRun output).args.senderIdentity)
        = .ok (serializeIdentityText device) := by
    show readToString false fs identityFile = _
    have hbytes : readFile false identityFile fs
        = (.ok (utf8 (serializeIdentityText device)), fs) := by
      rw [readFile, hfiles.identity]
      rfl
    rw [readToString, hbytes, ok_bind, fromUtf8_utf8, okOr_some]
  have htrust : TrustedSender.fromVerified { device with trustState := .verified }
      = .ok ⟨(ed25519Keypair TransferPlatform.transparent.pqc sampleGenerateDraws.signing).1⟩ :=
    fromVerified_eq hkey (.inl rfl)
  have hnew : id ∉ SeenEnvelopeIds.new.ids := List.not_mem_nil
  obtain ⟨seen, hopen, -⟩ := @openReceived_of_created _ _ _ _ _ _ _ _ _
    TransferPlatform.transparent_correct hdevice hdevice none [1, 2, 3] none _ _ hfrom ⟨0, 0, 0⟩
    not_expired_none not_expired_none _ hnew
  refine ⟨seen, ?_⟩
  have hopen' : openReceivedTransferEnvelope DevicePlatform.transparent.toTransferPlatform
      (sampleRun output).clock.opening envelope keypair device.classicalPublicKey
      ⟨(ed25519Keypair TransferPlatform.transparent.pqc sampleGenerateDraws.signing).1⟩ .new
        = (.ok [1, 2, 3], seen) := hopen
  simp only [receivePlaintext, hload, hread, hkeypair, hidentity, htext, htrust, orErr_ok, ok_bind,
    hopen']

/-- What a sample run releases, and where it keeps the identifier. -/
def sampleRelease (envelope : TransferEnvelope) (output : String) : Release :=
  ⟨⟨envelope.envelopeId, envelope.expiresAt, 0⟩, ⟨"", output ++ ".seen"⟩⟩

/-- One run to an output of its own, and what it leaves alone. -/
theorem sample_release {meets : Fs → List Release → ReceiveRun String → Prop} {log : List Release}
    {device : DeviceIdentity} {keypairBytes : Bytes} {envelope : TransferEnvelope} {output : String}
    {seen : SeenEnvelopeIds}
    (h : ReceiveRuns DevicePlatform.transparent PathNames.plain meets fs 0 log)
    (hmeets : meets fs log (sampleRun output))
    (hfiles : SampleFiles device keypairBytes envelope fs)
    (hapart : ∀ p ∈ [envelopeFile, keypairFile, identityFile],
      p ≠ ⟨"", output ++ ".seen"⟩ ∧ p ≠ ⟨"", output⟩)
    (hread : (sampleRun output).envelopeRead DevicePlatform.transparent fs = .ok envelope)
    (hopened : receivePlaintext DevicePlatform.transparent PathNames.plain (sampleRun output) fs
      = .ok ([1, 2, 3], seen)) :
    ∃ fs', ReceiveRuns DevicePlatform.transparent PathNames.plain meets fs' 0
        (log ++ [sampleRelease envelope output])
      ∧ SampleFiles device keypairBytes envelope fs'
      ∧ ∀ p, p ≠ ⟨"", output ++ ".seen"⟩ → p ≠ ⟨"", output⟩ → fs' p = fs p := by
  have hsame : ∀ p : Path, p ≠ ⟨"", output ++ ".seen"⟩ → p ≠ ⟨"", output⟩ →
      ((fs.set ⟨"", output ++ ".seen"⟩ (some seen.toBytes)).set ⟨"", output⟩ (some [1, 2, 3])) p
        = fs p := by
    intro p hseen houtput
    rw [Fs.set_of_ne _ _ houtput, Fs.set_of_ne _ _ hseen]
  refine ⟨_, .released h hmeets (sampleRun_monotone output) hread
    (transferReceiveCommand_of_opened hopened), ?_, hsame⟩
  exact hfiles.congr fun p hp => hsame p (hapart p hp).1 (hapart p hp).2

/-- The files, and nothing else. -/
theorem exists_sampleFiles (device : DeviceIdentity) (keypairBytes : Bytes)
    (envelope : TransferEnvelope) :
    ∃ fs : Fs, SampleFiles device keypairBytes envelope fs
      ∧ ∀ p, p ∉ [envelopeFile, keypairFile, identityFile] → fs p = none := by
  refine ⟨fun p =>
    if p = envelopeFile then some (envelopeToBytes envelope)
    else if p = keypairFile then some (List.replicate 32 0 ++ keypairBytes)
    else if p = identityFile then some (utf8 (serializeIdentityText device))
    else none, ⟨if_pos rfl, ?_, ?_⟩, fun p hp => ?_⟩
  · exact (if_neg (by decide)).trans (if_pos rfl)
  · exact (if_neg (by decide)).trans ((if_neg (by decide)).trans (if_pos rfl))
  · simp only [List.mem_cons, List.not_mem_nil, or_false, not_or] at hp
    exact (if_neg hp.1).trans ((if_neg hp.2.1).trans (if_neg hp.2.2))

/-- A sample run keeps to its stores where the releases before it did, to
outputs of their own. -/
theorem sampleRun_asks {log : List Release} {output : String} {envelope : TransferEnvelope}
    (hread : (sampleRun output).envelopeRead DevicePlatform.transparent fs = .ok envelope)
    (hown : (⟨"", output ++ ".seen"⟩ : Path) ≠ ⟨"", output⟩)
    (hlog : ∀ release ∈ log, release.seenFile ≠ ⟨"", output⟩
      ∧ (release.acceptance.id = envelope.envelopeId →
        release.seenFile = ⟨"", output ++ ".seen"⟩)) :
    AsksItsStore DevicePlatform.transparent PathNames.plain fs log (sampleRun output) where
  own written hwritten := by
    obtain rfl : (⟨"", output⟩ : Path) = written := Option.some.inj hwritten
    exact hown
  others written hwritten release hrelease := by
    obtain rfl : (⟨"", output⟩ : Path) = written := Option.some.inj hwritten
    exact (hlog release hrelease).1
  shared read henvelope release hrelease := by
    rw [hread, Except.ok.injEq] at henvelope
    rw [← henvelope]
    exact (hlog release hrelease).2

/-- One envelope to one output and another to another, and then that one
again to where it went. -/
theorem release_atMostOnce_of_two :
    ∃ (fs fs' : Fs) (first second : Release) (envelope : TransferEnvelope) (e : CoreError),
      first.acceptance.id ≠ second.acceptance.id
      ∧ ReceiveRuns DevicePlatform.transparent PathNames.plain
        (AsksItsStore DevicePlatform.transparent PathNames.plain) fs 0 [first, second]
      ∧ (sampleRun "second").envelopeRead DevicePlatform.transparent fs = .ok envelope
      ∧ envelope.envelopeId = second.acceptance.id
      ∧ transferReceiveCommand DevicePlatform.transparent PathNames.plain (sampleRun "second") fs
        = (.error e, fs')
      ∧ AtMostOnce [first, second] := by
  obtain ⟨device, keypairBytes, hopens⟩ := sample_opened
  obtain ⟨envelope₁, hid₁, -, hopens₁⟩ := hopens (numberedId 1)
  obtain ⟨envelope₂, hid₂, hexpiry₂, hopens₂⟩ := hopens (numberedId 2)
  have hne : envelope₁.envelopeId ≠ envelope₂.envelopeId := by
    rw [hid₁, hid₂]
    exact fun h => absurd (numberedId_inj (by decide) (by decide) h) (by decide)
  have hfirst : (sampleRelease envelope₁ "first").seenFile ≠ ⟨"", "second"⟩
      ∧ ((sampleRelease envelope₁ "first").acceptance.id = envelope₂.envelopeId →
        (sampleRelease envelope₁ "first").seenFile = ⟨"", "second" ++ ".seen"⟩) := by
    refine ⟨?_, fun hid => absurd hid hne⟩
    show (⟨"", "first" ++ ".seen"⟩ : Path) ≠ _
    decide
  have hsecond : (sampleRelease envelope₂ "second").seenFile ≠ ⟨"", "second"⟩ := by
    show (⟨"", "second" ++ ".seen"⟩ : Path) ≠ _
    decide
  -- the first run
  obtain ⟨fs₀, hfiles₀, hnone⟩ := exists_sampleFiles device keypairBytes envelope₁
  obtain ⟨hread₁, hnew₁⟩ := hopens₁ fs₀ "first" hfiles₀
  obtain ⟨seen₁, hopened₁⟩ := hnew₁ (hnone _ (by decide))
  have hasks₁ := sampleRun_asks hread₁ (by decide) (List.forall_mem_nil _)
  obtain ⟨fs₁, hruns₁, hfiles₁, hsame₁⟩ :=
    sample_release (.started fs₀ 0) hasks₁ hfiles₀ (by decide) hread₁ hopened₁
  -- someone puts the other envelope in the place of the first
  have hnone₂ : (fs₁.set envelopeFile (some (envelopeToBytes envelope₂))) ⟨"", "second" ++ ".seen"⟩
      = none := by
    rw [Fs.set_of_ne _ _ (by decide), hsame₁ _ (by decide) (by decide)]
    exact hnone _ (by decide)
  have hkept : ∀ release ∈ [sampleRelease envelope₁ "first"],
      (fs₁.set envelopeFile (some (envelopeToBytes envelope₂))) release.seenFile
        = fs₁ release.seenFile := by
    refine List.forall_mem_singleton.mpr (Fs.set_of_ne _ _ ?_)
    show (⟨"", "first" ++ ".seen"⟩ : Path) ≠ _
    decide
  have hruns₂ := hruns₁.others hkept (UInt64.le_refl 0)
  have hfiles₂ := hfiles₁.replace envelope₂
  -- the second run
  obtain ⟨hread₂, hnew₂⟩ := hopens₂ _ "second" hfiles₂
  obtain ⟨seen₂, hopened₂⟩ := hnew₂ hnone₂
  have hasks₂ := sampleRun_asks hread₂ (by decide) (List.forall_mem_singleton.mpr hfirst)
  obtain ⟨fs₃, hruns₃, hfiles₃, -⟩ :=
    sample_release hruns₂ hasks₂ hfiles₂ (by decide) hread₂ hopened₂
  -- and once more
  obtain ⟨hread₃, -⟩ := hopens₂ fs₃ "second" hfiles₃
  have hasks₃ := sampleRun_asks hread₃ (by decide)
    (List.forall_mem_cons.mpr ⟨hfirst, List.forall_mem_singleton.mpr ⟨hsecond, fun _ => rfl⟩⟩)
  have hlive : ¬ Expired 0 envelope₂.expiresAt := by
    rw [hexpiry₂]
    exact not_expired_none
  obtain ⟨e, fs', hrefused⟩ :=
    ReceiveRuns.refuses hruns₃ hasks₃ (sampleRun_monotone "second") hread₃
    (List.mem_cons_of_mem _ (List.mem_singleton_self _)) rfl hlive
  exact ⟨fs₃, fs', _, _, envelope₂, e, hne, hruns₃, hread₃, rfl, hrefused,
    release_atMostOnce hruns₃⟩

/-- One envelope, received to one output and then to another:
released twice. -/
theorem released_twice :
    ∃ (fs : Fs) (id : EnvelopeId),
      ReceiveRuns DevicePlatform.transparent PathNames.plain DefaultSeenIds fs 0
        [⟨⟨id, none, 0⟩, ⟨"", "first.seen"⟩⟩, ⟨⟨id, none, 0⟩, ⟨"", "second.seen"⟩⟩]
      ∧ ¬ AtMostOnce [⟨⟨id, none, 0⟩, ⟨"", "first.seen"⟩⟩,
        ⟨⟨id, none, 0⟩, ⟨"", "second.seen"⟩⟩] := by
  obtain ⟨device, keypairBytes, hsample⟩ := sample_opened
  obtain ⟨envelope, -, hexpiry, hopens⟩ := hsample (numberedId 1)
  obtain ⟨fs, hfiles, hnone⟩ := exists_sampleFiles device keypairBytes envelope
  obtain ⟨hread, hnew⟩ := hopens fs "first" hfiles
  obtain ⟨seen, hopened⟩ := hnew (hnone _ (by decide))
  have hstart : ReceiveRuns DevicePlatform.transparent PathNames.plain DefaultSeenIds fs 0 [] :=
    .started fs 0
  obtain ⟨fs₁, hfirst, hfiles₁, hsame₁⟩ :=
    sample_release hstart rfl hfiles (by decide) hread hopened
  have habsent : fs₁ ⟨"", "second" ++ ".seen"⟩ = none :=
    (hsame₁ _ (by decide) (by decide)).trans (hnone _ (by decide))
  obtain ⟨hread₁, hnew₁⟩ := hopens fs₁ "second" hfiles₁
  obtain ⟨seen₁, hopened₁⟩ := hnew₁ habsent
  obtain ⟨fs₂, hsecond, -⟩ := sample_release hfirst rfl hfiles₁ (by decide) hread₁ hopened₁
  rw [sampleRelease, sampleRelease, hexpiry] at hsecond
  refine ⟨_, envelope.envelopeId, hsecond, fun honce => ?_⟩
  exact absurd honce.2 (by simp)

end MeissnerSeal
