/-
Two devices that have paired, and a file sent from one to the other.

# What pairing leaves

A run of `device pair` that is given the peer's identity text leaves a
keypair file that opens to the device under the passphrase typed, and a file
the peer's identity is read back from (`Paired`).

# Sending

Whatever becomes of the other files, what the one creates from its two files
the other receives with its own two (`pair_then_transfer`).
-/
import MeissnerSeal.Cli.AtMostOnce
import MeissnerSeal.Cli.Devices
import MeissnerSeal.Cli.Desk
import MeissnerSeal.Lib.Utf8Text
import Mathlib.Data.List.TakeWhile

namespace MeissnerSeal.Cli

open ByteCodec ExceptRules ReplayWindow TextLines

-- ================================================================ the input

/-- A line that holds no line end itself is read up to its own. -/
theorem inputLines_append {line : Bytes} (h : 0x0a ∉ line) (rest : Bytes) :
    inputLines (line ++ 0x0a :: rest) = (line ++ [0x0a]) :: inputLines rest := by
  induction line with
  | nil => rw [List.nil_append, inputLines, if_pos rfl, List.nil_append]
  | cons b line ih =>
      rw [List.mem_cons, not_or] at h
      rw [List.cons_append, inputLines, if_neg (Ne.symm h.1), ih h.2]
      rfl

/-- The lines of the input, put back together, are the input. -/
theorem flatten_inputLines (bytes : Bytes) : (inputLines bytes).flatten = bytes := by
  induction bytes with
  | nil => rfl
  | cons b bytes ih =>
      rw [inputLines]
      by_cases hb : b = 0x0a
      · rw [if_pos hb, List.flatten_cons, ih]
        rfl
      · rw [if_neg hb]
        cases hlines : inputLines bytes with
        | nil =>
            rw [hlines] at ih
            rw [← ih]
            rfl
        | cons line rest =>
            rw [hlines] at ih
            rw [← ih]
            rfl

theorem splitLine_append {line : Bytes} (h : 0x0a ∉ line) (rest : Bytes) :
    splitLine (line ++ 0x0a :: rest) = (line ++ [0x0a], rest) := by
  induction line with
  | nil => rw [List.nil_append, splitLine, if_pos rfl, List.nil_append]
  | cons b line ih =>
      rw [List.mem_cons, not_or] at h
      rw [List.cons_append, splitLine, if_neg (Ne.symm h.1), ih h.2]
      rfl

/-- Something is left of a text that does not only hold white space. -/
theorem trim_ne_empty {text : String} {c : Char} (hc : c ∈ text.toList)
    (hspace : isWhitespace c = false) : trim text ≠ "" := by
  intro hempty
  have hnil : ((text.toList.dropWhile isWhitespace).reverse.dropWhile isWhitespace).reverse = [] :=
    String.ofList_eq_empty_iff.mp hempty
  rw [List.reverse_eq_nil_iff, List.dropWhile_eq_nil_iff] at hnil
  have hfront : ∀ d ∈ text.toList.dropWhile isWhitespace, isWhitespace d = true :=
    fun d hd => hnil d (List.mem_reverse.mpr hd)
  have hall : ∀ d ∈ text.toList, isWhitespace d = true := by
    intro d hd
    have hparts : text.toList.takeWhile isWhitespace ++ text.toList.dropWhile isWhitespace
        = text.toList := List.takeWhile_append_dropWhile
    rw [← hparts, List.mem_append] at hd
    rcases hd with hd | hd
    · exact List.mem_takeWhile_imp hd
    · exact hfront d hd
  rw [hall c hc] at hspace
  cases hspace

/-- A line that is read as it is, and is not blank. -/
def Plain (line : String) : Prop :=
  '\n' ∉ line.toList ∧ line.toList.getLast? ≠ some '\r' ∧ trim line ≠ ""

/-- A text of these lines. -/
def ofLines (ls : List String) : String := ls.foldr (fun line text => line ++ "\n" ++ text) ""

/-- Plain lines are read up to the blank one. -/
theorem readLinesUntilBlank_of_plain {fault : Nat → Bool} (hfault : ∀ i, fault i = false)
    {ls : List String} (hplain : ∀ line ∈ ls, Plain line) (rest : Bytes) (i : Nat) (out : String) :
    readLinesUntilBlank fault i (inputLines (utf8 (ofLines ls) ++ 0x0a :: rest)) out
      = .ok (out ++ ofLines ls, inputLines rest) := by
  have hnext : ∀ (line : String) (more : Bytes), '\n' ∉ line.toList →
      inputLines (utf8 (line ++ "\n") ++ more) = utf8 (line ++ "\n") :: inputLines more := by
    intro line more hline
    have hend : utf8 "\n" = [0x0a] := by decide
    have hnone : (0x0a : UInt8) ∉ utf8 line := by
      rw [← String.ofList_toList (s := line)]
      exact newline_notMem_utf8 hline
    rw [utf8_append, hend, List.append_assoc]
    exact inputLines_append hnone more
  induction ls generalizing i out with
  | nil =>
      have hblank : inputLines (utf8 (ofLines []) ++ 0x0a :: rest) = [0x0a] :: inputLines rest :=
        if_pos rfl
      have hline : fromUtf8 [0x0a] = some "\n" := fromUtf8_utf8 "\n"
      rw [hblank, readLinesUntilBlank, rejectIf_neg _ (by rw [hfault]; decide), ok_bind, hline,
        okOr_some, ok_bind, if_pos (by decide), ofLines, List.foldr_nil, String.append_empty]
      rfl
  | cons line ls ih =>
      obtain ⟨hnewline, hcr, htrim⟩ := hplain line List.mem_cons_self
      have htext : utf8 (ofLines (line :: ls)) ++ 0x0a :: rest
          = utf8 (line ++ "\n") ++ (utf8 (ofLines ls) ++ 0x0a :: rest) := by
        rw [ofLines, List.foldr_cons, utf8_append, List.append_assoc]
        rfl
      have hstrip : String.ofList (stripLineEnd (line ++ "\n").toList) = line := by
        have hend : (line ++ "\n").toList = line.toList ++ ['\n'] := String.toList_append
        rw [hend, stripLineEnd_line, stripCr_eq_self.mpr hcr, String.ofList_toList]
      rw [htext, hnext _ _ hnewline, readLinesUntilBlank,
        rejectIf_neg _ (by rw [hfault]; decide), ok_bind, fromUtf8_utf8, okOr_some, ok_bind, hstrip,
        if_neg htrim, ih (fun l hl => hplain l (List.mem_cons_of_mem _ hl))]
      rw [ofLines, ofLines, List.foldr_cons, String.append_assoc, String.append_assoc,
        String.append_assoc]

/-- Plain lines and a blank one are read, and no more. -/
theorem readUntilBlankLine_of_plain {fault : Nat → Bool} (hfault : ∀ i, fault i = false)
    {ls : List String} (hplain : ∀ line ∈ ls, Plain line) (rest : Bytes) :
    readUntilBlankLine fault (utf8 (ofLines ls) ++ 0x0a :: rest) = .ok (ofLines ls, rest) := by
  rw [readUntilBlankLine, readLinesUntilBlank_of_plain hfault hplain, ok_bind, String.empty_append]
  show Except.ok (ofLines ls, (inputLines rest).flatten) = _
  rw [flatten_inputLines]

-- ========================================================== identity texts

/-- The name comes back from the text as it is. -/
def OneLineName (name : String) : Prop := '\n' ∉ name.toList ∧ name.toList.getLast? ≠ some '\r'

/-- The lines of an identity's text. -/
def identityLines (identity : DeviceIdentity) : List String :=
  ["ms-device-identity-v1",
    "device_id=" ++ hexEncode identity.deviceId.toList,
    "display_name=" ++ identity.displayName,
    "classical_public_key=" ++ hexEncode identity.classicalPublicKey.toList,
    "pqc_public_key=" ++ hexEncode identity.pqcPublicKey.toList,
    "signing_algorithm=Ed25519V1",
    "signing_public_key="
      ++ hexEncode (identity.signingPublicKey.elim [] (·.bytes)),
    "created_at=" ++ toString identity.createdAt.toNat]

/-- The identity text is its lines. -/
theorem ofLines_identityLines (identity : DeviceIdentity) :
    ofLines (identityLines identity) = serializeIdentityText identity := by
  have hheader : "ms-device-identity-v1" ++ "\n" = "ms-device-identity-v1\n" := rfl
  have halgorithm : "signing_algorithm=Ed25519V1" ++ "\n" = "signing_algorithm=Ed25519V1\n" := rfl
  unfold serializeIdentityText
  simp only [ofLines, identityLines, List.foldr_cons, List.foldr_nil, String.append_empty]
  rw [hheader, halgorithm]
  cases identity.signingPublicKey <;> rfl

/-- A line that begins with a letter. -/
theorem plain_append {front back : String} {c : Char} (hc : c ∈ front.toList)
    (hspace : isWhitespace c = false) (hfront : Clean front) (hnewline : '\n' ∉ back.toList)
    (hcr : back.toList.getLast? ≠ some '\r') : Plain (front ++ back) := by
  refine ⟨?_, ?_, trim_ne_empty (c := c) ?_ hspace⟩
  · rw [String.toList_append, List.mem_append, not_or]
    exact ⟨hfront.1, hnewline⟩
  · rw [String.toList_append, List.getLast?_append]
    cases hlast : back.toList.getLast? with
    | some d => rwa [hlast] at hcr
    | none =>
        intro hbad
        exact hfront.2 (List.mem_of_getLast? hbad)
  · rw [String.toList_append]
    exact List.mem_append_left _ hc

/-- A visible character in the front of a line is enough for it not to be
taken for a blank one. -/
theorem plain_append_clean {front back : String} {c : Char} (hc : c ∈ front.toList)
    (hspace : isWhitespace c = false) (hfront : Clean front) (hback : Clean back) :
    Plain (front ++ back) :=
  plain_append hc hspace hfront hback.1 fun hlast => hback.2 (List.mem_of_getLast? hlast)

theorem plain_of_mem_identityLines {identity : DeviceIdentity}
    (hname : OneLineName identity.displayName) : ∀ line ∈ identityLines identity, Plain line := by
  have hempty : Clean "" := ⟨List.not_mem_nil, List.not_mem_nil⟩
  have hconst : ∀ {text : String} {c : Char}, c ∈ text.toList → isWhitespace c = false →
      Clean text → Plain text := by
    intro text c hc hspace htext
    have h := plain_append_clean hc hspace htext hempty
    rwa [String.append_empty] at h
  intro line hline
  simp only [identityLines, List.mem_cons, List.not_mem_nil, or_false] at hline
  rcases hline with rfl | rfl | rfl | rfl | rfl | rfl | rfl | rfl
  · exact hconst (c := 'm') (by decide) (by decide) ⟨by decide, by decide⟩
  · exact plain_append_clean (c := 'd') (by decide) (by decide) ⟨by decide, by decide⟩
      (clean_hexEncode _)
  · exact plain_append (c := 'd') (by decide) (by decide) ⟨by decide, by decide⟩ hname.1 hname.2
  · exact plain_append_clean (c := 'c') (by decide) (by decide) ⟨by decide, by decide⟩
      (clean_hexEncode _)
  · exact plain_append_clean (c := 'p') (by decide) (by decide) ⟨by decide, by decide⟩
      (clean_hexEncode _)
  · exact hconst (c := 's') (by decide) (by decide) ⟨by decide, by decide⟩
  · exact plain_append_clean (c := 's') (by decide) (by decide) ⟨by decide, by decide⟩
      (clean_hexEncode _)
  · exact plain_append_clean (c := 'c') (by decide) (by decide) ⟨by decide, by decide⟩
      (clean_toString _)

/-- A device's text, a blank line behind it, is read off the input. -/
theorem readUntilBlankLine_of_identity {fault : Nat → Bool} (hfault : ∀ i, fault i = false)
    {identity : DeviceIdentity} (hname : OneLineName identity.displayName) (rest : Bytes) :
    readUntilBlankLine fault (utf8 (serializeIdentityText identity) ++ 0x0a :: rest)
      = .ok (serializeIdentityText identity, rest) := by
  rw [← ofLines_identityLines]
  exact readUntilBlankLine_of_plain hfault (plain_of_mem_identityLines hname) rest

-- ================================================================== pairing

variable {Name : Type} {platform : DevicePlatform} {names : PathNames Name}
  {identity peer : DeviceIdentity} {keypair peerKeypair : DeviceKeypair} {draws : GenerateDraws}
  {name : String}

/-- The keypair file of a generated device opens to the device. -/
theorem exists_saveSealedKeypair (hcorrect : platform.pqc.Correct) (htotal : platform.kdf.Total)
    (hgenerate : generate platform.toTransferPlatform draws name = .ok (identity, keypair))
    (hname : (utf8 name).length < 2 ^ 31) (salt : U8Array 32) (nonce : Nonce) (path : Path)
    (passphrase : Bytes) (fs : Fs) :
    ∃ bytes, saveSealedKeypair platform .written salt
      (some nonce) path identity keypair passphrase fs
        = (.ok (), fs.set path (some bytes))
      ∧ ∀ fs' : Fs, fs' path = some bytes →
        loadSealedKeypair platform false fs' path passphrase = .ok (identity, keypair) := by
  obtain ⟨hclassical, -, hpublic, hprivate⟩ := generate_eq_ok hgenerate
  have hdisplay : identity.displayName = name := displayName_of_generate hgenerate
  -- the key of the file, from the passphrase and the salt
  obtain ⟨dkek, hdkek⟩ : ∃ dkek, deriveDkek platform passphrase salt = .ok dkek := by
    obtain ⟨key, hkey⟩ := Option.isSome_iff_exists.mp (htotal.argon2id passphrase
      (deviceKeypairKdfDomain ++ salt.toList) keypairFileKdfParams.mCostKib
      keypairFileKdfParams.tCost keypairFileKdfParams.pLanes)
    refine ⟨key, ?_⟩
    rw [deriveDkek, deriveDeviceKeypairKey, rejectIf_neg _ (by decide), ok_bind, hkey]
    rfl
  -- a generated keypair has everything that seals, and opens again
  obtain ⟨sealedFile, hseal⟩ : ∃ bytes, sealKeyFile platform (some nonce) identity keypair dkek
      = .ok bytes := by
    refine exists_sealKeyFile nonce (by rw [hdisplay]; exact hname) (fun key hkey => ?_) ?_ dkek
    · rw [hpublic, Option.some.injEq] at hkey
      rw [← hkey, ed25519Keypair, List.Vector.toList_length]
      decide
    · rw [hprivate, ed25519Keypair, List.Vector.toList_length]
      decide
  have hopen : openKeyFile platform sealedFile dkek = .ok (identity, keypair) :=
    openKeyFile_of_signing hcorrect (validate_of_generate hgenerate) hclassical hpublic
      (by rw [hprivate]) hseal
  refine ⟨salt.toList ++ sealedFile, ?_, fun fs' hfile => ?_⟩
  · rw [saveSealedKeypair, FsM.bind_apply, FsM.lift, hdkek]
    simp only [FsM.bind_apply, FsM.lift, hseal, orErrUnwind_ok, writeFile]
  · -- the reader takes the salt off the front and derives the same key
    have hlen : salt.toList.length = keypairFileSaltLen := List.Vector.toList_length salt
    have hlong : ¬ (salt.toList ++ sealedFile).length < keypairFileSaltLen := by
      rw [List.length_append, hlen]
      omega
    have hread : (readFile false path fs').1 = .ok (salt.toList ++ sealedFile) := by
      rw [readFile_of_some hfile]
      rfl
    rw [loadSealedKeypair, hread, ok_bind, rejectIf_neg _ hlong, ok_bind, ← hlen, List.take_left,
      List.drop_left, tryArray_toList, okOr_some, ok_bind, hdkek, ok_bind, hopen, orErr_ok]

/-- What was generated is accepted for pairing: it has a signing key, and a
name that is not empty. -/
theorem exists_buildPairingPayload {nonceDraws : PairingNonceDraws} {nonce : PairingNonce}
    (hnonce : generatePairingNonce nonceDraws = .ok nonce)
    (hgenerate : generate platform.toTransferPlatform draws name = .ok (identity, keypair)) :
    ∃ payload, buildPairingPayload platform.kdf nonceDraws identity 0x01 = .ok payload
      ∧ payload.displayName = name ∧ payload.pairingNonce = nonce := by
  have hdisplay : identity.displayName = name := displayName_of_generate hgenerate
  have hnonempty : name ≠ "" := by
    rintro rfl
    rw [generate, rejectIf_pos _ rfl] at hgenerate
    cases hgenerate
  obtain ⟨payload, hbuild, hpayload⟩ : ∃ payload,
      buildPairingPayload platform.kdf nonceDraws identity 0x01 = .ok payload
        ∧ payload.displayName = identity.displayName ∧ payload.pairingNonce = nonce := by
    rw [buildPairingPayload, (generate_eq_ok hgenerate).2.2.1, okOr_some, ok_bind,
      rejectIf_neg _ (by rw [hdisplay]; exact hnonempty), ok_bind, hnonce, ok_bind]
    exact ⟨_, rfl, rfl, rfl⟩
  exact ⟨payload, hbuild, hpayload.1.trans hdisplay, hpayload.2⟩

/-- Two generated devices have a short authentication string. -/
theorem exists_pairingSas {peerDraws : GenerateDraws} {peerName : String}
    {nonceDraws peerNonceDraws : PairingNonceDraws} {nonce peerNonce : PairingNonce}
    (hnonce : generatePairingNonce nonceDraws = .ok nonce)
    (hpeerNonce : generatePairingNonce peerNonceDraws = .ok peerNonce)
    (hgenerate : generate platform.toTransferPlatform draws name = .ok (identity, keypair))
    (hpeer : generate platform.toTransferPlatform peerDraws peerName = .ok (peer, peerKeypair))
    (hname : (utf8 peerName).length < 2 ^ 32) :
    ∃ sas, pairingSas platform nonceDraws peerNonceDraws identity peer = .ok sas := by
  obtain ⟨payload, hbuild, -, hown⟩ := exists_buildPairingPayload hnonce hgenerate
  obtain ⟨peerPayload, hpeerBuild, hpeerName, -⟩ := exists_buildPairingPayload hpeerNonce hpeer
  -- The peer's payload is taken with the own nonce in it.
  generalize hshown : ({ peerPayload with
    protocolVersion := pairingProtocolVersionV1, pairingNonce := nonce } : PairingPayload) = shown
  have hvalid : validatePairingPayload shown = .ok () := by
    have hpeerValid := validate_of_buildPairingPayload hpeerBuild
    simp only [validatePairingPayload, bind_eq_ok, rejectIf_eq_ok] at hpeerValid ⊢
    obtain ⟨-, -, -, -, hnonempty⟩ := hpeerValid
    rw [← hshown]
    exact ⟨(), not_not.mpr rfl, (), generatePairingNonce_ne_zero hnonce, hnonempty⟩
  have hshort : (utf8 shown.displayName).length < 2 ^ 32 := by
    rw [← hshown, hpeerName]
    exact hname
  obtain ⟨x, hx⟩ := (PairingPayload.exists_transcript_iff hvalid).mpr hshort
  have htranscript : computePairingTranscript platform.kdf shown
      = .ok ⟨shown, platform.kdf.sha256 x⟩ := computePairingTranscript_eq_ok.mpr ⟨x, hx, rfl⟩
  rw [pairingSas, hbuild, orErr_ok, ok_bind, syntheticPairingPayload, hpeerBuild, orErr_ok, ok_bind,
    pure_eq_ok, ok_bind, hown, hshown, htranscript, orErr_ok, ok_bind]
  exact ⟨_, rfl⟩

/-- No system call of a pairing fails, its nonces are drawn, its keypair
file is no other of its files, and its name comes back as it is. -/
structure PairRun.Quiet (run : PairRun Name) : Prop where
  line : ∀ i, run.io.line i = false
  confirm : run.io.confirm = false
  keypairWrite : run.io.keypairWrite = .written
  keypairMetadata : run.io.keypairMetadata = false
  keypairPermissions : run.io.keypairPermissions = false
  selfWrite : run.io.selfWrite = .written
  peerWrite : run.io.peerWrite = .written
  nonce : ∃ nonce, generatePairingNonce run.nonceDraws = .ok nonce
  peerNonce : ∃ nonce, generatePairingNonce run.peerNonceDraws = .ok nonce
  sealNonce : run.sealNonce.isSome
  selfApart : run.resolve run.args.selfKeypair ≠ run.resolve run.args.selfIdentity
  peerApart : run.resolve run.args.selfKeypair ≠ run.resolve run.args.peerIdentity
  oneLine : OneLineName run.args.name
  short : (utf8 run.args.name).length < 2 ^ 31

/-- The files of a pairing: they open to the device and tell the peer. -/
structure Paired (platform : DevicePlatform) (run : PairRun Name) (passphrase : Bytes)
    (identity peer : DeviceIdentity) (keypair : DeviceKeypair) (fs : Fs) : Prop where
  keypair : loadSealedKeypair platform false fs (run.resolve run.args.selfKeypair) passphrase
    = .ok (identity, keypair)
  peer : ∃ text, readToString false fs (run.resolve run.args.peerIdentity) = .ok text
    ∧ deserializeIdentityText text = .ok peer

section Steps

variable {α : Type} {world : World}

theorem fromStdin_bind_ok {read : Bytes → Res (α × Bytes)} {f : α → CliM Unit} {a : α}
    {rest : Bytes}
    (h : read world.stdin = .ok (a, rest)) :
    (fromStdin read >>= f) world = f a { world with stdin := rest } := by
  rw [CliM.bind_apply, fromStdin, h]

theorem prompt_bind_ok {prompts : Prompts} {i : Nat} {f : String → CliM Unit} {text : String}
    {rest : Bytes} (h : promptPassword prompts i world.stdin = .ok (text, rest)) :
    (prompt prompts i >>= f) world = f text { world with stdin := rest } := by
  rw [CliM.bind_apply, prompt, h]

end Steps

/-- A pairing that is given the peer's text, and confirmed. -/
theorem exists_devicePair {run : PairRun Name} {peerDraws : GenerateDraws}
    {peerName passphrase : String}
    {rest rest' : Bytes} {world : World} (hcorrect : platform.pqc.Correct)
    (htotal : platform.kdf.Total) (hquiet : run.Quiet)
    (hgenerate : generate platform.toTransferPlatform run.draws run.args.name
      = .ok (identity, keypair))
    (hpeer : generate platform.toTransferPlatform peerDraws peerName = .ok (peer, peerKeypair))
    (hpeerLine : OneLineName peerName) (hpeerShort : (utf8 peerName).length < 2 ^ 31)
    (hstdin : world.stdin = utf8 (serializeIdentityText peer) ++ 0x0a :: (utf8 "y\n" ++ rest))
    (hpass : promptPassword run.prompts 0 rest = .ok (passphrase, rest'))
    (hroom : world.room = none) :
    ∃ fs', devicePairCommand platform run world
        = (.ok (), ⟨fs', rest', world.stdout ++ lineOf "Pairing complete.", none⟩)
      ∧ Paired platform run (utf8 passphrase) identity peer keypair fs' := by
  obtain ⟨nonce, hnonce⟩ := hquiet.nonce
  obtain ⟨peerNonce, hpeerNonce⟩ := hquiet.peerNonce
  obtain ⟨sealNonce, hsealNonce⟩ := Option.isSome_iff_exists.mp hquiet.sealNonce
  obtain ⟨sas, hsas⟩ := exists_pairingSas hnonce hpeerNonce hgenerate hpeer
    (Nat.lt_trans hpeerShort (by decide))
  obtain ⟨bytes, hsave, hload⟩ := exists_saveSealedKeypair hcorrect htotal hgenerate hquiet.short
    run.salt sealNonce (run.resolve run.args.selfKeypair) (utf8 passphrase) world.fs
  have hpeerName : peer.displayName = peerName := displayName_of_generate hpeer
  have hpeerText : deserializeIdentityText (serializeIdentityText peer) = .ok peer :=
    deserializeIdentityText_of_generate hpeer hpeerLine.1 hpeerLine.2
  -- standard input: the block of the peer, the confirmation, the passphrase
  have hblock : readUntilBlankLine run.io.line world.stdin
      = .ok (serializeIdentityText peer, utf8 "y\n" ++ rest) := by
    rw [hstdin]
    exact readUntilBlankLine_of_identity hquiet.line (hpeerName ▸ hpeerLine) _
  have hconfirm : readLine run.io.confirm (utf8 "y\n" ++ rest) = .ok ("y\n", rest) := by
    have hline : (0x0a : UInt8) ∉ utf8 "y" := by decide
    have hsplit : splitLine (utf8 "y\n" ++ rest) = (utf8 "y\n", rest) := splitLine_append hline rest
    rw [readLine, hquiet.confirm, hsplit, fromUtf8_utf8]
    rfl
  refine ⟨((world.fs.set (run.resolve run.args.selfKeypair) (some bytes)).set
    (run.resolve run.args.selfIdentity) (some (utf8 (serializeIdentityText identity)))).set
    (run.resolve run.args.peerIdentity) (some (utf8 (serializeIdentityText peer))), ?_, ?_, ?_⟩
  · -- the run, line by line: every write succeeds
    unfold devicePairCommand
    rw [hgenerate, orErr_ok, CliM.lift_bind_ok]
    dsimp only
    rw [fromStdin_bind_ok hblock, hpeerText, orErr_ok, CliM.lift_bind_ok, hsas, CliM.lift_bind_ok,
      fromStdin_bind_ok hconfirm, rejectIf_neg _ (by decide), CliM.lift_bind_ok,
      prompt_bind_ok hpass, hquiet.keypairWrite, hsealNonce]
    dsimp only
    rw [CliM.files_bind, hsave]
    dsimp only
    rw [hquiet.keypairMetadata, hquiet.keypairPermissions, hquiet.selfWrite,
      hquiet.peerWrite, hroom]
    rfl
  · -- the key file is written first, and no identity file in its place
    refine hload _ ?_
    rw [Fs.set_of_ne _ _ hquiet.peerApart, Fs.set_of_ne _ _ hquiet.selfApart, Fs.set_self]
  · refine ⟨_, ?_, hpeerText⟩
    rw [readToString, readFile_of_some (Fs.set_self ..), if_neg Bool.false_ne_true, ok_bind,
      fromUtf8_utf8, okOr_some]

-- ================================================================= sending

/-- A run of `transfer create` with the files of a pairing, around which
nothing fails. -/
structure CreateRun.SendsFrom (create : CreateRun Name) (pair : PairRun Name) : Prop where
  senderKeypair : create.resolve create.args.senderKeypair = pair.resolve pair.args.selfKeypair
  recipientIdentity : create.resolve create.args.recipientIdentity
    = pair.resolve pair.args.peerIdentity
  keypairRead : create.keypairRead = false
  identityRead : create.identityRead = false
  inputRead : create.inputRead = false
  outputWrite : create.outputWrite = .written
  nonce : create.draws.nonce.isSome

/-- A run of `transfer receive` with the files of a pairing, around which
nothing fails. -/
structure ReceivesAt (receive : ReceiveRun Name) (pair : PairRun Name) : Prop where
  recipientKeypair : receive.resolve receive.args.recipientKeypair
    = pair.resolve pair.args.selfKeypair
  senderIdentity : receive.resolve receive.args.senderIdentity = pair.resolve pair.args.peerIdentity
  io : receive.io = {}

variable {pair : PairRun Name} {create : CreateRun Name} {receive : ReceiveRun Name}
  {passphrase payload : Bytes} {expiresAt : Timestamp} {fs : Fs}

/-- What a paired device creates for its peer. -/
theorem Paired.createdEnvelope_eq (h : Paired platform pair passphrase identity peer keypair fs)
    (hsends : create.SendsFrom pair) (hinput : fs (create.resolve create.args.input) = some payload)
    (hexpires : create.expiresAt = .ok expiresAt) :
    createdEnvelope platform create passphrase fs
      = orErrUnwind
        (createSignedTransferEnvelope platform.toTransferPlatform create.createNow create.draws
          identity.deviceId keypair (some peer.deviceId) peer.classicalPublicKey peer.pqcPublicKey
          payload (some expiresAt)) .crypto := by
  obtain ⟨text, htext, hpeer⟩ := h.peer
  rw [createdEnvelope, hsends.senderKeypair, hsends.recipientIdentity, hsends.keypairRead,
    hsends.identityRead, hsends.inputRead, h.keypair, ok_bind]
  dsimp only
  rw [htext, ok_bind, hpeer, orErr_ok, ok_bind, readFile_of_some hinput, if_neg Bool.false_ne_true,
    ok_bind, hexpires, ok_bind]

/-- What a paired device makes of an envelope at its place. -/
theorem Paired.receivePlaintext_eq (h : Paired platform pair passphrase identity peer keypair fs)
    (hreceives : ReceivesAt receive pair) (hpass : receive.args.keypairPassphrase = passphrase)
    {seen : SeenEnvelopeIds} {envelope : TransferEnvelope} {key : SigningPublicKey}
    (hseen : loadSeenIds false fs (receive.seenFile names) = .ok seen)
    (hread : receive.envelopeRead platform fs = .ok envelope)
    (hkey : peer.signingPublicKey = some key) :
    receivePlaintext platform names receive fs
      = match openReceivedTransferEnvelope platform.toTransferPlatform
        receive.clock.opening envelope
          keypair identity.classicalPublicKey ⟨key⟩ seen with
        | (.error _, _) => .error .crypto
        | (.ok plaintext, seen) => .ok (plaintext, seen) := by
  obtain ⟨text, htext, hpeer⟩ := h.peer
  have htrusted : TrustedSender.fromVerified { peer with trustState := .verified } = .ok ⟨key⟩ :=
    fromVerified_eq hkey (.inl rfl)
  rw [receivePlaintext, hread, hreceives.io, hseen, ok_bind, ok_bind, hreceives.recipientKeypair,
    hreceives.senderIdentity, hpass, h.keypair, ok_bind]
  dsimp only
  rw [htext, ok_bind, hpeer, orErr_ok, ok_bind, htrusted, orErr_ok]
  rfl

/-- The two files of a pairing are as they were. -/
structure KeepsPairing (pair : PairRun Name) (fs fs' : Fs) : Prop where
  keypair : fs' (pair.resolve pair.args.selfKeypair) = fs (pair.resolve pair.args.selfKeypair)
  peer : fs' (pair.resolve pair.args.peerIdentity) = fs (pair.resolve pair.args.peerIdentity)

theorem readFile_congr {fs fs' : Fs} {path : Path} (h : fs' path = fs path) (fault : Bool) :
    (readFile fault path fs').1 = (readFile fault path fs).1 := by
  unfold readFile
  rw [h]
  split <;> rfl

theorem Paired.of_keeps {fs' : Fs} (h : Paired platform pair passphrase identity peer keypair fs)
    (hkeeps : KeepsPairing pair fs fs') :
    Paired platform pair passphrase identity peer keypair fs' where
  keypair := by
    rw [← h.keypair, loadSealedKeypair, loadSealedKeypair, readFile_congr hkeeps.keypair]
  peer := by
    obtain ⟨text, htext, hpeer⟩ := h.peer
    exact ⟨text, by rw [← htext, readToString, readToString, readFile_congr hkeeps.peer], hpeer⟩

/-- What a run of `transfer receive` leaves where it goes through. -/
theorem transferReceive_of_plaintext {fs : Fs} {seen : SeenEnvelopeIds} (hio : receive.io = {})
    (h : receivePlaintext platform names receive fs = .ok (payload, seen)) :
    ∃ fs' shown, transferReceiveCommand platform names receive fs = (.ok shown, fs')
      ∧ (receive.outputFile = none → shown = payload)
      ∧ ∀ output, receive.outputFile = some output → shown = [] ∧ fs' output = some payload := by
  have hrun : transferReceiveCommand platform names receive fs
      = releasePlaintext receive payload (fs.set (receive.seenFile names) (some seen.toBytes)) := by
    rw [transferReceiveCommand, FsM.reading_bind, h]
    dsimp only
    rw [hio]
    rfl
  rw [hrun, releasePlaintext, hio]
  cases receive.outputFile with
  | none =>
      refine ⟨_, payload, rfl, fun _ => rfl, ?_⟩
      intro output hsome
      cases hsome
  | some output =>
      refine ⟨(fs.set (receive.seenFile names) (some seen.toBytes)).set output (some payload), [],
        rfl, ?_, ?_⟩
      · intro hnone
        cases hnone
      · intro path hpath
        obtain rfl := Option.some.inj hpath
        exact ⟨rfl, Fs.set_self ..⟩

/-- Two devices that pair by each other's text can send: whatever else becomes
of their files, a file that fits is created into an envelope by the one, and
the other, while the envelope lives and is new to it, receives it as it was. -/
theorem pair_then_transfer (platform : DevicePlatform) (names : PathNames Name)
    (hcorrect : platform.pqc.Correct) (htotal : platform.kdf.Total) {alice bob : PairRun Name}
    {aliceId bobId : DeviceIdentity} {aliceKeys bobKeys : DeviceKeypair}
    (halice : generate platform.toTransferPlatform alice.draws alice.args.name
      = .ok (aliceId, aliceKeys))
    (hbob : generate platform.toTransferPlatform bob.draws bob.args.name = .ok (bobId, bobKeys))
    (haliceQuiet : alice.Quiet) (hbobQuiet : bob.Quiet) {aliceWorld bobWorld : World}
    {alicePass bobPass : String} {aliceRest bobRest aliceRest' bobRest' : Bytes}
    (haliceStdin : aliceWorld.stdin
      = utf8 (serializeIdentityText bobId) ++ 0x0a :: (utf8 "y\n" ++ aliceRest))
    (hbobStdin : bobWorld.stdin
      = utf8 (serializeIdentityText aliceId) ++ 0x0a :: (utf8 "y\n" ++ bobRest))
    (halicePass : promptPassword alice.prompts 0 aliceRest = .ok (alicePass, aliceRest'))
    (hbobPass : promptPassword bob.prompts 0 bobRest = .ok (bobPass, bobRest'))
    (haliceRoom : aliceWorld.room = none) (hbobRoom : bobWorld.room = none) :
    ∃ aliceWorld' bobWorld', devicePairCommand platform alice aliceWorld = (.ok (), aliceWorld')
      ∧ devicePairCommand platform bob bobWorld = (.ok (), bobWorld')
      ∧ ∀ (create : CreateRun Name) (aliceFs : Fs) (stdin stdin' payload : Bytes)
          (expiresAt : Timestamp),
        create.SendsFrom alice → KeepsPairing alice aliceWorld'.fs aliceFs →
        promptPassword create.prompts 0 stdin = .ok (alicePass, stdin') →
        aliceFs (create.resolve create.args.input) = some payload → payload.length + 86 < 2 ^ 32 →
        create.expiresAt = .ok expiresAt → ¬ Expired create.createNow (some expiresAt) →
        ∃ envelope aliceFs', transferCreateCommand platform names create ⟨aliceFs, stdin, [], none⟩
            = (.ok (), ⟨aliceFs', stdin', lineOf ("Transfer envelope written to "
                ++ names.display create.args.output ++ "."), none⟩)
          ∧ aliceFs' (create.resolve create.args.output) = some envelope
          ∧ ∀ (receive : ReceiveRun Name) (bobFs : Fs) (seen : SeenEnvelopeIds),
            ReceivesAt receive bob → KeepsPairing bob bobWorld'.fs bobFs →
            receive.args.keypairPassphrase = utf8 bobPass →
            bobFs (receive.resolve receive.args.envelope) = some envelope →
            ¬ Expired receive.clock.wire (some expiresAt) →
            ¬ Expired receive.clock.opening.validate (some expiresAt) →
            ¬ Expired receive.clock.opening.insert (some expiresAt) →
            loadSeenIds false bobFs (receive.seenFile names) = .ok seen →
            create.draws.envelopeId ∉ seen.ids →
            ∃ bobFs' shown, transferReceiveCommand platform names receive bobFs
              = (.ok shown, bobFs')
              ∧ (receive.outputFile = none → shown = payload)
              ∧ ∀ output, receive.outputFile = some output →
                shown = [] ∧ bobFs' output = some payload := by
  -- both pair
  obtain ⟨aliceFs₀, haliceRun, halicePaired⟩ := exists_devicePair hcorrect htotal haliceQuiet halice
    hbob hbobQuiet.oneLine hbobQuiet.short haliceStdin halicePass haliceRoom
  obtain ⟨bobFs₀, hbobRun, hbobPaired⟩ := exists_devicePair hcorrect htotal hbobQuiet hbob
    halice haliceQuiet.oneLine haliceQuiet.short hbobStdin hbobPass hbobRoom
  refine ⟨_, _, haliceRun, hbobRun, ?_⟩
  intro create aliceFs stdin stdin' payload expiresAt hsends haliceKeeps hcreatePass hinput hlen
    hexpires hcreate
  -- the sender: its two files open, so it creates what the core creates
  have halicePaired' := halicePaired.of_keeps haliceKeeps
  obtain ⟨nonce, hnonce⟩ := Option.isSome_iff_exists.mp hsends.nonce
  have hopener := openerOf_generated halice hbob (some bobId.deviceId) payload (some expiresAt)
  obtain ⟨envelope, henvelope⟩ : ∃ envelope,
    createSignedTransferEnvelope platform.toTransferPlatform
      create.createNow create.draws aliceId.deviceId aliceKeys (some bobId.deviceId)
      bobId.classicalPublicKey bobId.pqcPublicKey payload (some expiresAt) = .ok envelope :=
    exists_createEnvelope hcorrect.toAgrees htotal.expand hnonce hcreate (.inl fun h => nomatch h)
      hopener (by show payload.length + 70 < 2 ^ 32; omega)
  have hfrom : CreatedFrom platform.toTransferPlatform create.draws (signedParams aliceId aliceKeys
      (some bobId.deviceId) bobId payload (some expiresAt)) envelope :=
        CreatedFrom.of_create henvelope
  have hcreated : createdEnvelope platform create (utf8 alicePass) aliceFs = .ok envelope := by
    rw [halicePaired'.createdEnvelope_eq hsends hinput hexpires, henvelope, orErrUnwind_ok]
  refine ⟨envelopeToBytes envelope, aliceFs.set (create.resolve create.args.output)
    (some (envelopeToBytes envelope)), ?_, Fs.set_self .., ?_⟩
  · have hread : FsM.reading (createdEnvelope platform create (utf8 alicePass)) aliceFs
        = (.ok envelope, aliceFs) := by rw [FsM.reading, hcreated]
    unfold transferCreateCommand
    rw [prompt_bind_ok hcreatePass]
    dsimp only
    rw [CliM.files_bind, hread]
    dsimp only
    rw [hsends.outputWrite]
    rfl
  · intro receive bobFs seen hreceives hbobKeeps hreceivePass hfile hwire hvalidate
      hinsert hseen hnew
    -- the recipient: what it reads back is that envelope, and it opens
    have hbobPaired' := hbobPaired.of_keeps hbobKeeps
    have hlive : ¬ Expired receive.clock.wire envelope.expiresAt := by
      rw [hfrom.expiresAt]
      exact hwire
    have hread : receive.envelopeRead platform bobFs = .ok envelope := by
      rw [ReceiveRun.envelopeRead, hreceives.io, readFile_of_some hfile, if_neg Bool.false_ne_true,
        ok_bind, hfrom.fromBytes_iff hlive,
        if_pos (by show payload.length + 86 < 2 ^ 32; exact hlen), orErr_ok]
    have hkey := (generate_eq_ok halice).2.2.1
    obtain ⟨seen', hopen, -⟩ :=
      openReceived_of_created hcorrect halice hbob hfrom hvalidate hinsert hnew
    have hplain : receivePlaintext platform names receive bobFs = .ok (payload, seen') := by
      rw [hbobPaired'.receivePlaintext_eq hreceives hreceivePass hseen hread hkey, hopen]
    exact transferReceive_of_plaintext hreceives.io hplain

-- =============================================================== inhabited

/-- A pairing of a device that types `key`, into the files `keypair`, `self`
and `identity`. -/
def samplePair (deviceId : DeviceId) : PairRun String where
  args := {
    name := "device"
    selfKeypair := "keypair"
    selfIdentity := "self"
    peerIdentity := "identity" }
  resolve name := ⟨"", name⟩
  prompts := { stdin := false, fault := fun _ => false, typed := fun _ => some "key" }
  io := {}
  draws := { sampleGenerateDraws with deviceId }
  nonceDraws := ⟨List.Vector.replicate 32 1, List.Vector.replicate 32 0⟩
  peerNonceDraws := ⟨List.Vector.replicate 32 0, List.Vector.replicate 32 2⟩
  salt := List.Vector.replicate 32 0
  sealNonce := some sampleNonce

theorem samplePair_quiet (deviceId : DeviceId) : (samplePair deviceId).Quiet where
  line _ := rfl
  confirm := rfl
  keypairWrite := rfl
  keypairMetadata := rfl
  keypairPermissions := rfl
  selfWrite := rfl
  peerWrite := rfl
  nonce := ⟨_, if_pos (by show (List.replicate 32 (1 : UInt8)).any (· != 0) = true; decide)⟩
  peerNonce := by
    refine ⟨_, (if_neg ?_).trans (if_pos ?_)⟩
    · show ¬ (List.replicate 32 (0 : UInt8)).any (· != 0) = true
      decide
    · show (List.replicate 32 (2 : UInt8)).any (· != 0) = true
      decide
  sealNonce := rfl
  selfApart := by simp [samplePair]
  peerApart := by simp [samplePair]
  oneLine := by
    show OneLineName "device"
    exact ⟨by decide, by decide⟩
  short := by
    show (utf8 "device").length < 2 ^ 31
    decide

theorem samplePair_generate (platform : TransferPlatform) (deviceId : DeviceId) :
    ∃ identity keypair, generate platform (samplePair deviceId).draws
      (samplePair deviceId).args.name
      = .ok (identity, keypair) := by
  have hname : ¬ "device" = "" := by decide
  cases h : generate platform (samplePair deviceId).draws "device" with
  | error e =>
      rw [generate, rejectIf_neg _ hname] at h
      cases h
  | ok pair => exact ⟨pair.1, pair.2, h⟩

/-- A file `note` of three bytes, into an envelope of a second. -/
def sampleCreate : CreateRun String where
  args :=
    { senderKeypair := "keypair", recipientIdentity := "identity", input := "note"
      output := "envelope", expiresIn := 1 }
  resolve name := ⟨"", name⟩
  prompts := { stdin := false, fault := fun _ => false, typed := fun _ => some "key" }
  keypairRead := false
  identityRead := false
  inputRead := false
  outputWrite := .written
  now := .ok 0
  createNow := 0
  draws := sampleEnvelopeDraws

theorem sampleCreate_expiresAt : sampleCreate.expiresAt = .ok 1000 := by
  have hsecond : ¬ sampleCreate.args.expiresIn.toNat * 1000 ≥ 2 ^ 64 := by decide
  have hsum : ¬ (0 : UInt64).toNat + sampleCreate.args.expiresIn.toNat * 1000 ≥ 2 ^ 64 := by decide
  show (Except.ok (0 : UInt64) >>= _) = _
  rw [ok_bind, rejectIf_neg _ hsecond, ok_bind, rejectIf_neg _ hsum, ok_bind]
  rfl

/-- Devices one and two pair, and three bytes go from one to two. -/
theorem pair_then_transfer_of_samples :
    ∃ (aliceWorld bobWorld aliceWorld' bobWorld' : World) (aliceFs' bobFs' : Fs) (envelope : Bytes),
      devicePairCommand DevicePlatform.transparent (samplePair (numberedId 1)) aliceWorld
        = (.ok (), aliceWorld')
      ∧ devicePairCommand DevicePlatform.transparent (samplePair (numberedId 2)) bobWorld
        = (.ok (), bobWorld')
      ∧ (transferCreateCommand DevicePlatform.transparent PathNames.plain sampleCreate
          ⟨aliceWorld'.fs.set ⟨"", "note"⟩ (some [1, 2, 3]), [], [], none⟩).2.fs = aliceFs'
      ∧ aliceFs' ⟨"", "envelope"⟩ = some envelope
      ∧ transferReceiveCommand DevicePlatform.transparent PathNames.plain
          { sampleRun "note" with args :=
            { (sampleRun "note").args with keypairPassphrase := utf8 "key" } }
          ((bobWorld'.fs.set ⟨"", "note.seen"⟩ none).set ⟨"", "envelope"⟩ (some envelope))
            = (.ok [], bobFs')
      ∧ bobFs' ⟨"", "note"⟩ = some [1, 2, 3] := by
  obtain ⟨aliceId, aliceKeys, halice⟩ :=
    samplePair_generate DevicePlatform.transparent.toTransferPlatform (numberedId 1)
  obtain ⟨bobId, bobKeys, hbob⟩ :=
    samplePair_generate DevicePlatform.transparent.toTransferPlatform (numberedId 2)
  have hpass : ∀ deviceId, promptPassword (samplePair deviceId).prompts 0 []
      = .ok ("key", []) := fun _ => rfl
  let aliceWorld : World :=
    ⟨fun _ => none, utf8 (serializeIdentityText bobId) ++ 0x0a :: (utf8 "y\n" ++ []), [], none⟩
  let bobWorld : World :=
    ⟨fun _ => none, utf8 (serializeIdentityText aliceId) ++ 0x0a :: (utf8 "y\n" ++ []), [], none⟩
  have haliceStdin : aliceWorld.stdin
      = utf8 (serializeIdentityText bobId) ++ 0x0a :: (utf8 "y\n" ++ []) := rfl
  have hbobStdin : bobWorld.stdin
      = utf8 (serializeIdentityText aliceId) ++ 0x0a :: (utf8 "y\n" ++ []) := rfl
  obtain ⟨aliceWorld', bobWorld', haliceRun, hbobRun, h⟩ := pair_then_transfer
    DevicePlatform.transparent PathNames.plain TransferPlatform.transparent_correct
    ⟨fun _ _ _ _ _ => rfl, fun _ _ => rfl⟩ halice hbob (samplePair_quiet _) (samplePair_quiet _)
    haliceStdin hbobStdin (hpass _) (hpass _) rfl rfl
  have hlive : ¬ Expired (0 : Timestamp) (some 1000) := by
    rintro ⟨limit, hlimit, hle⟩
    obtain rfl := Option.some.inj hlimit
    exact absurd hle (by decide)
  obtain ⟨envelope, aliceFs', hcreate, henvelope, hreceive⟩ := h sampleCreate
    (aliceWorld'.fs.set ⟨"", "note"⟩ (some [1, 2, 3])) [] [] [1, 2, 3] 1000
    ⟨rfl, rfl, rfl, rfl, rfl, rfl, rfl⟩
    ⟨Fs.set_of_ne _ _ (by simp [samplePair]), Fs.set_of_ne _ _ (by simp [samplePair])⟩
    rfl (Fs.set_self ..) (by show 3 + 86 < 2 ^ 32; decide) sampleCreate_expiresAt hlive
  have hkeeps : KeepsPairing (samplePair (numberedId 2)) bobWorld'.fs
      ((bobWorld'.fs.set ⟨"", "note.seen"⟩ none).set ⟨"", "envelope"⟩ (some envelope)) :=
    ⟨(Fs.set_of_ne _ _ (by simp [samplePair])).trans (Fs.set_of_ne _ _ (by simp [samplePair])),
      (Fs.set_of_ne _ _ (by simp [samplePair])).trans (Fs.set_of_ne _ _ (by simp [samplePair]))⟩
  have hseen : loadSeenIds false
      ((bobWorld'.fs.set ⟨"", "note.seen"⟩ none).set ⟨"", "envelope"⟩ (some envelope))
      ⟨"", "note.seen"⟩ = .ok .new := by
    rw [loadSeenIds, if_neg Bool.false_ne_true, Fs.set_of_ne _ _ (by simp), Fs.set_self]
  obtain ⟨bobFs', shown, hrun, -, hfile⟩ := hreceive
    { sampleRun "note" with args := { (sampleRun "note").args
      with keypairPassphrase := utf8 "key" } }
    ((bobWorld'.fs.set ⟨"", "note.seen"⟩ none).set ⟨"", "envelope"⟩ (some envelope)) .new
    ⟨rfl, rfl, rfl⟩ hkeeps rfl (Fs.set_self ..) hlive hlive hlive hseen List.not_mem_nil
  exact ⟨aliceWorld, bobWorld, aliceWorld', bobWorld', aliceFs', bobFs', envelope,
    haliceRun, hbobRun, congrArg (fun out => out.2.fs) hcreate, henvelope, (hfile _ rfl).1 ▸ hrun,
      (hfile _ rfl).2⟩

end MeissnerSeal.Cli
