/-
An identity as text: a header line, and a line `key=value` for each field.

# What is read back

The parser's loop keeps the last value of each key. Every line but the
name's holds hexadecimal digits, decimal digits or a constant, and is read
back as it was (`deserializeIdentityText_of_serialize`); the name is
written as it stands, and what comes back is what its lines say.

# Names

A name is one line, and that line the name, exactly when it holds no line
feed and does not end in a carriage return: these are the identities that
are read back (`deserializeIdentityText_of_generate_iff`).
-/
import MeissnerSeal.Keys.KeyFile
import MeissnerSeal.Lib.TextLines

namespace MeissnerSeal

open ByteCodec ExceptRules TextLines

-- ============================================================ hexadecimals

/-- `hex_encode`. -/
def hexEncode (bytes : Bytes) : String := hexBytes bytes

/-- The loop of `hex_decode`. -/
def hexDecodePairs : Bytes → DeviceRes Bytes
  | a :: b :: rest => do
      let hex ← okOr (fromUtf8 [a, b]) .invalidFileFormat
      let byte ← okOr (fromStrRadix 16 (2 ^ 8) hex.toList) .invalidFileFormat
      let out ← hexDecodePairs rest
      return UInt8.ofNat byte :: out
  -- an odd byte has been refused before
  | _ => return []

/-- `hex_decode`. -/
def hexDecode (value : String) : DeviceRes Bytes := do
  rejectIf ((utf8 value).length % 2 ≠ 0) .invalidFileFormat
  hexDecodePairs (utf8 value)

/-- `hex_array`. -/
def hexArray (n : Nat) (value : String) : DeviceRes (U8Array n) := do
  let bytes ← hexDecode value
  okOr (tryArray n bytes) .invalidFileFormat

/-- The two digits of a byte read back as the byte. -/
theorem fromStrRadix_hexByte (b : UInt8) : fromStrRadix 16 (2 ^ 8) (hexByte b) = some b.toNat := by
  have hb := b.toNat_lt
  have hdigit : ∀ n < 16, charToDigit 16 (hexDigit n) = some n
      ∧ hexDigit n ≠ '+' ∧ hexDigit n ≠ '-' := by decide
  obtain ⟨hhigh, hplus, hminus⟩ := hdigit (b.toNat / 16) (by omega)
  obtain ⟨hlow, -⟩ := hdigit (b.toNat % 16) (by omega)
  have hvalue : b.toNat / 16 * 16 + b.toNat % 16 = b.toNat := Nat.div_add_mod' _ 16
  rw [hexByte, fromStrRadix_of_digits (List.cons_ne_nil _ _)]
  · simp only [readDigits, List.foldlM_cons, List.foldlM_nil, hhigh, hlow, Option.bind_eq_bind,
      Option.bind_some, Option.pure_def, Nat.zero_mul, Nat.zero_add]
    rw [if_pos (by omega), Option.bind_some, if_pos (by omega), Option.bind_some, hvalue]
  · intro c hc
    obtain rfl : hexDigit (b.toNat / 16) = c := Option.some.inj hc
    exact ⟨hplus, hminus⟩

/-- The two characters of a byte are two bytes. -/
theorem utf8_hexByte (b : UInt8) : ∃ x y, utf8 (String.ofList (hexByte b)) = [x, y] := by
  have hb := b.toNat_lt
  have hdigit : ∀ n < 16, ∃ x, String.utf8EncodeChar (hexDigit n) = [x] := by
    intro n hn
    have hlen : ∀ n < 16, (String.utf8EncodeChar (hexDigit n)).length = 1 := by decide
    exact List.length_eq_one_iff.mp (hlen n hn)
  obtain ⟨x, hx⟩ := hdigit (b.toNat / 16) (by omega)
  obtain ⟨y, hy⟩ := hdigit (b.toNat % 16) (by omega)
  refine ⟨x, y, ?_⟩
  rw [utf8, String.toByteArray_ofList, hexByte]
  simp [List.utf8Encode, hx, hy]

/-- The text is built two digits to a byte. -/
theorem hexEncode_cons (b : UInt8) (bytes : Bytes) :
    hexEncode (b :: bytes) = String.ofList (hexByte b) ++ hexEncode bytes := by
  rw [hexEncode, hexEncode, hexBytes, hexBytes, List.flatMap_cons, String.ofList_append]

/-- By induction on the bytes: each pair of digits is cut off at its place,
and the text has an even length. -/
theorem hexDecodePairs_hexEncode (bytes : Bytes) :
    hexDecodePairs (utf8 (hexEncode bytes)) = .ok bytes
      ∧ (utf8 (hexEncode bytes)).length % 2 = 0 := by
  induction bytes with
  | nil => exact ⟨rfl, rfl⟩
  | cons b bytes ih =>
      obtain ⟨x, y, hxy⟩ := utf8_hexByte b
      have hpair : fromUtf8 [x, y] = some (String.ofList (hexByte b)) := by
        rw [← hxy]
        exact fromUtf8_utf8 _
      rw [hexEncode_cons, utf8_append, hxy]
      constructor
      · show hexDecodePairs (x :: y :: utf8 (hexEncode bytes)) = _
        rw [hexDecodePairs, hpair, okOr_some, ok_bind, String.toList_ofList, fromStrRadix_hexByte,
          okOr_some, ok_bind, ih.1, ok_bind, UInt8.ofNat_toNat]
        rfl
      · rw [List.length_append, List.length_cons, List.length_singleton]
        omega

/-- So hex text reads back, for every bytes. -/
theorem hexDecode_hexEncode (bytes : Bytes) : hexDecode (hexEncode bytes) = .ok bytes := by
  obtain ⟨hdecode, heven⟩ := hexDecodePairs_hexEncode bytes
  rw [hexDecode, rejectIf_neg _ (not_not.mpr heven), ok_bind, hdecode]

theorem hexArray_hexEncode {n : Nat} (a : U8Array n) : hexArray n (hexEncode a.toList) = .ok a := by
  rw [hexArray, hexDecode_hexEncode, ok_bind, tryArray_toList, okOr_some]

-- ================================================================ the text

/-- `serialize_identity_text`. -/
def serializeIdentityText (identity : DeviceIdentity) : String :=
  "ms-device-identity-v1\n"
    ++ ("device_id=" ++ hexEncode identity.deviceId.toList ++ "\n"
    ++ ("display_name=" ++ identity.displayName ++ "\n"
    ++ ("classical_public_key=" ++ hexEncode identity.classicalPublicKey.toList ++ "\n"
    ++ ("pqc_public_key=" ++ hexEncode identity.pqcPublicKey.toList ++ "\n"
    ++ ("signing_algorithm=Ed25519V1\n"
    ++ ("signing_public_key="
      ++ hexEncode (match identity.signingPublicKey with
        | some key => key.bytes
        | none => []) ++ "\n"
    ++ ("created_at=" ++ toString identity.createdAt.toNat ++ "\n")))))))

/-- The variables of `deserialize_identity_text`'s loop. -/
structure IdentityFields where
  deviceId : Option DeviceId := none
  displayName : Option String := none
  classicalPublicKey : Option X25519PublicKey := none
  pqcPublicKey : Option MlKemPublicKey := none
  signingAlgorithm : Option SigningAlgorithmId := none
  signingPublicKey : Option Bytes := none
  createdAt : Option Timestamp := none

/-- The `match` of the loop. -/
def IdentityFields.assign (fields : IdentityFields) (key value : String) :
    DeviceRes IdentityFields :=
  if key = "device_id" then do
    let deviceId ← hexArray 16 value
    return { fields with deviceId := some deviceId }
  else if key = "display_name" ∧ '\n' ∉ value.toList then
    return { fields with displayName := some value }
  else if key = "classical_public_key" then do
    let classicalPublicKey ← hexArray 32 value
    return { fields with classicalPublicKey := some classicalPublicKey }
  else if key = "pqc_public_key" then do
    let pqcPublicKey ← hexArray 1184 value
    return { fields with pqcPublicKey := some pqcPublicKey }
  else if key = "signing_algorithm" ∧ value = "Ed25519V1" then
    return { fields with signingAlgorithm := some .ed25519V1 }
  else if key = "signing_public_key" then do
    let signingPublicKey ← hexDecode value
    return { fields with signingPublicKey := some signingPublicKey }
  else if key = "created_at" then do
    let createdAt ← okOr (fromStrRadix 10 (2 ^ 64) value.toList) .invalidFileFormat
    return { fields with createdAt := some (UInt64.ofNat createdAt) }
  else throw .invalidFileFormat

/-- The body of the loop. -/
def IdentityFields.readLine (fields : IdentityFields) (line : String) :
    DeviceRes IdentityFields := do
  let (key, value) ← okOr (splitOnce '=' line) .invalidFileFormat
  fields.assign key value

/-- What `deserialize_identity_text` makes of its variables. -/
def IdentityFields.finish (fields : IdentityFields) : DeviceRes DeviceIdentity := do
  let algorithm ← okOr fields.signingAlgorithm .invalidFileFormat
  let signingBytes ← okOr fields.signingPublicKey .invalidFileFormat
  let signingPublicKey ← tryNewSigningPublicKey algorithm signingBytes
  let deviceId ← okOr fields.deviceId .invalidFileFormat
  let displayName ← okOr fields.displayName .invalidFileFormat
  let classicalPublicKey ← okOr fields.classicalPublicKey .invalidFileFormat
  let pqcPublicKey ← okOr fields.pqcPublicKey .invalidFileFormat
  let createdAt ← okOr fields.createdAt .invalidFileFormat
  let identity : DeviceIdentity := {
    deviceId, displayName, classicalPublicKey, pqcPublicKey
    signingPublicKey := some signingPublicKey
    createdAt
    trustState := .untrusted }
  identity.validate
  return identity

/-- `deserialize_identity_text`. -/
def deserializeIdentityText (text : String) : DeviceRes DeviceIdentity := do
  rejectIf ((lines text).head? ≠ some "ms-device-identity-v1") .invalidFileFormat
  let fields ← (lines text).tail.foldlM IdentityFields.readLine {}
  fields.finish

variable {identity : DeviceIdentity} {fields fields' : IdentityFields} {text : String}

-- =========================================================== one-line names

/-- A line of digits, letters and separators. -/
def Clean (text : String) : Prop := '\n' ∉ text.toList ∧ '\r' ∉ text.toList

theorem Clean.append {s t : String} (hs : Clean s) (ht : Clean t) : Clean (s ++ t) := by
  unfold Clean at *
  rw [String.toList_append, List.mem_append, List.mem_append, not_or, not_or]
  exact ⟨⟨hs.1, ht.1⟩, hs.2, ht.2⟩

theorem clean_of_chars {text : String} (h : ∀ c ∈ text.toList, c ≠ '\n' ∧ c ≠ '\r') : Clean text :=
  ⟨fun hc => (h _ hc).1 rfl, fun hc => (h _ hc).2 rfl⟩

/-- Digits and letters are no line ends. -/
theorem clean_hexEncode (bytes : Bytes) : Clean (hexEncode bytes) := by
  have hdigit : ∀ n < 16, hexDigit n ≠ '\n' ∧ hexDigit n ≠ '\r' := by decide
  apply clean_of_chars
  intro c hc
  rw [hexEncode, hexBytes, String.toList_ofList, List.mem_flatMap] at hc
  obtain ⟨b, -, hc⟩ := hc
  have hb := b.toNat_lt
  rw [hexByte, List.mem_cons, List.mem_singleton] at hc
  rcases hc with rfl | rfl
  · exact hdigit _ (by omega)
  · exact hdigit _ (by omega)

/-- Nor is a digit of a number. -/
theorem clean_toString (n : Nat) : Clean (toString n) := by
  apply clean_of_chars
  intro c hc
  rw [Nat.toString_eq_ofList_toDigits, String.toList_ofList] at hc
  have hdigit := Nat.isDigit_of_mem_toDigits (by decide) (by decide) hc
  constructor
  · rintro rfl
    exact absurd hdigit (by decide)
  · rintro rfl
    exact absurd hdigit (by decide)

/-- A clean text is one line. -/
theorem lines_of_clean {text : String} (h : Clean text) : lines (text ++ "\n") = [text] := by
  have hcr : text.toList.getLast? ≠ some '\r' := fun hlast => h.2 (List.mem_of_getLast? hlast)
  rw [lines_line h.1, stripCr_eq_self.mpr hcr, String.ofList_toList]

/-- A line of a key and its value. -/
theorem readLine_append {key label : String} (hlabel : label = key ++ "=") (hkey : '=' ∉ key.toList)
    (value : String) : fields.readLine (label ++ value) = fields.assign key value := by
  have hsplit : splitOnce '=' (key ++ "=" ++ value) = some (key, value) :=
    splitOnce_append hkey value
  rw [IdentityFields.readLine, hlabel, hsplit, okOr_some, ok_bind]

/-- The lines of a text before and behind the name. -/
theorem lines_serializeIdentityText (identity : DeviceIdentity) :
    lines (serializeIdentityText identity)
      = ["ms-device-identity-v1", "device_id=" ++ hexEncode identity.deviceId.toList]
        ++ (lines ("display_name=" ++ identity.displayName ++ "\n")
        ++ ["classical_public_key=" ++ hexEncode identity.classicalPublicKey.toList,
          "pqc_public_key=" ++ hexEncode identity.pqcPublicKey.toList,
          "signing_algorithm=Ed25519V1",
          "signing_public_key="
            ++ hexEncode (match identity.signingPublicKey with
              | some key => key.bytes
              | none => []),
          "created_at=" ++ toString identity.createdAt.toNat]) := by
  have hkey : ∀ key ∈ ["ms-device-identity-v1", "device_id=", "classical_public_key=",
      "pqc_public_key=", "signing_algorithm=Ed25519V1", "signing_public_key=", "created_at="],
      Clean key := by
    unfold Clean
    decide
  have hheader : "ms-device-identity-v1\n" = "ms-device-identity-v1" ++ "\n" := rfl
  have halgorithm : "signing_algorithm=Ed25519V1\n" = "signing_algorithm=Ed25519V1" ++ "\n" := rfl
  unfold serializeIdentityText
  rw [hheader, halgorithm]
  simp only [lines_append_newline]
  rw [lines_of_clean (hkey _ (by simp)),
    lines_of_clean ((hkey "device_id=" (by simp)).append (clean_hexEncode _)),
    lines_of_clean ((hkey "classical_public_key=" (by simp)).append (clean_hexEncode _)),
    lines_of_clean ((hkey "pqc_public_key=" (by simp)).append (clean_hexEncode _)),
    lines_of_clean (hkey "signing_algorithm=Ed25519V1" (by simp)),
    lines_of_clean ((hkey "signing_public_key=" (by simp)).append (clean_hexEncode _)),
    lines_of_clean ((hkey "created_at=" (by simp)).append (clean_toString _))]
  rfl

/-- Each line of the writer sets its own field: the key is what stands
before the first `=`, and the value reads back. -/
theorem readLine_device_id (id : DeviceId) :
    fields.readLine ("device_id=" ++ hexEncode id.toList)
      = .ok { fields with deviceId := some id } := by
  rw [@readLine_append fields "device_id" "device_id=" rfl (by decide)]
  simp [IdentityFields.assign, hexArray_hexEncode]

/-- The name is taken as it stands, further `=` and all. -/
theorem readLine_display_name {name : String} (h : '\n' ∉ name.toList) :
    fields.readLine ("display_name=" ++ name) = .ok { fields with displayName := some name } := by
  rw [@readLine_append fields "display_name" "display_name=" rfl (by decide)]
  simp [IdentityFields.assign, h]

theorem readLine_classical_public_key (key : X25519PublicKey) :
    fields.readLine ("classical_public_key=" ++ hexEncode key.toList)
      = .ok { fields with classicalPublicKey := some key } := by
  rw [@readLine_append fields "classical_public_key" "classical_public_key=" rfl (by decide)]
  simp [IdentityFields.assign, hexArray_hexEncode]

theorem readLine_pqc_public_key (key : MlKemPublicKey) :
    fields.readLine ("pqc_public_key=" ++ hexEncode key.toList)
      = .ok { fields with pqcPublicKey := some key } := by
  rw [@readLine_append fields "pqc_public_key" "pqc_public_key=" rfl (by decide)]
  simp [IdentityFields.assign, hexArray_hexEncode]

/-- The algorithm has a name, of which there is one. -/
theorem readLine_signing_algorithm :
    fields.readLine "signing_algorithm=Ed25519V1"
      = .ok { fields with signingAlgorithm := some .ed25519V1 } := by
  have hline : "signing_algorithm=Ed25519V1" = "signing_algorithm=" ++ "Ed25519V1" := rfl
  rw [hline, @readLine_append fields "signing_algorithm" "signing_algorithm=" rfl (by decide)]
  simp [IdentityFields.assign]

theorem readLine_signing_public_key (bytes : Bytes) :
    fields.readLine ("signing_public_key=" ++ hexEncode bytes)
      = .ok { fields with signingPublicKey := some bytes } := by
  rw [@readLine_append fields "signing_public_key" "signing_public_key=" rfl (by decide)]
  simp [IdentityFields.assign, hexDecode_hexEncode]

/-- The date is written in decimal. -/
theorem readLine_created_at (createdAt : Timestamp) :
    fields.readLine ("created_at=" ++ toString createdAt.toNat)
      = .ok { fields with createdAt := some createdAt } := by
  have hread : fromStrRadix 10 (2 ^ 64) (toString createdAt.toNat).toList
    = some createdAt.toNat := by
    rw [Nat.toString_eq_ofList_toDigits, String.toList_ofList]
    exact fromStrRadix_toDigits createdAt.toNat_lt
  rw [@readLine_append fields "created_at" "created_at=" rfl (by decide)]
  simp only [IdentityFields.assign, String.reduceEq, false_and, reduceIte, hread,
    okOr_some, ok_bind, UInt64.ofNat_toNat, pure_eq_ok]

/-- What is left of the variables, once the lines of the name are read. -/
theorem deserializeIdentityText_of_serialize {key : U8Array 32}
    (hkey : identity.signingPublicKey = some ⟨.ed25519V1, key.toList⟩)
    (hnamed : (lines ("display_name=" ++ identity.displayName ++ "\n")).foldlM
      IdentityFields.readLine { deviceId := some identity.deviceId } = .ok fields) :
    deserializeIdentityText (serializeIdentityText identity) = ({ fields with
      classicalPublicKey := some identity.classicalPublicKey
      pqcPublicKey := some identity.pqcPublicKey
      signingAlgorithm := some .ed25519V1
      signingPublicKey := some key.toList
      createdAt := some identity.createdAt } : IdentityFields).finish := by
  rw [deserializeIdentityText, lines_serializeIdentityText, hkey, rejectIf_neg _ (by simp), ok_bind]
  simp only [List.cons_append, List.nil_append, List.tail_cons, List.foldlM_cons, ok_bind,
    readLine_device_id, List.foldlM_append, hnamed, readLine_classical_public_key,
    readLine_pqc_public_key, readLine_signing_algorithm, readLine_signing_public_key,
    readLine_created_at, List.foldlM_nil, pure_eq_ok]

/-- All variables set, only an empty name is refused. -/
theorem finish_of_complete {name : String} {key : U8Array 32}
    (hkey : identity.signingPublicKey = some ⟨.ed25519V1, key.toList⟩)
    (htrust : identity.trustState = .untrusted) :
    (⟨some identity.deviceId, some name, some identity.classicalPublicKey,
        some identity.pqcPublicKey, some .ed25519V1, some key.toList, some identity.createdAt⟩ :
    IdentityFields).finish
      = if name = "" then .error .emptyDisplayName else .ok
        { identity with displayName := name } := by
  have hsigning : tryNewSigningPublicKey .ed25519V1 key.toList = .ok ⟨.ed25519V1, key.toList⟩ :=
    tryNewSigningPublicKey_eq_ok.mpr ⟨rfl, key.toList_length, rfl⟩
  simp only [IdentityFields.finish, okOr_some, ok_bind, hsigning, DeviceIdentity.validate]
  by_cases hname : name = ""
  · rw [if_pos hname, rejectIf_pos _ hname]
    rfl
  · rw [if_neg hname, rejectIf_neg _ hname, ok_bind, rejectIf_neg _ (by simp), ok_bind]
    rw [← hkey, ← htrust]
    rfl

-- ==================================================================== names

/-- A name of one line, and what the line ending leaves of it. -/
theorem deserializeIdentityText_of_oneLine {key : U8Array 32}
    (hkey : identity.signingPublicKey = some ⟨.ed25519V1, key.toList⟩)
    (htrust : identity.trustState = .untrusted) (hname : '\n' ∉ identity.displayName.toList) :
    deserializeIdentityText (serializeIdentityText identity)
      = if String.ofList (stripCr identity.displayName.toList) = "" then .error .emptyDisplayName
        else .ok { identity with
          displayName := String.ofList (stripCr identity.displayName.toList) } := by
  have hline : '\n' ∉ ("display_name=" ++ identity.displayName).toList := by
    rw [String.toList_append, List.mem_append, not_or]
    exact ⟨by decide, hname⟩
  have hstripped : String.ofList (stripCr ("display_name=" ++ identity.displayName).toList)
      = "display_name=" ++ String.ofList (stripCr identity.displayName.toList) := by
    rw [String.toList_append, stripCr_append (by decide), String.ofList_append,
      String.ofList_toList]
  have hkept : '\n' ∉ (String.ofList (stripCr identity.displayName.toList)).toList := by
    rw [String.toList_ofList]
    exact fun hmem => hname (mem_of_mem_stripCr hmem)
  have hnamed : (lines ("display_name=" ++ identity.displayName ++ "\n")).foldlM
      IdentityFields.readLine { deviceId := some identity.deviceId }
        = .ok { deviceId := some identity.deviceId
                displayName := some (String.ofList (stripCr identity.displayName.toList)) } := by
    rw [lines_line hline, hstripped, List.foldlM_cons, readLine_display_name hkept]
    rfl
  rw [deserializeIdentityText_of_serialize hkey hnamed, finish_of_complete hkey htrust]

/-- A name read is on one line. -/
def IdentityFields.OneLine (fields : IdentityFields) : Prop :=
  ∀ name, fields.displayName = some name → '\n' ∉ name.toList

/-- What the reader assigns is a line or comes of one, so it holds
no line feed. -/
theorem OneLine.assign {key value : String} (hone : fields.OneLine)
    (h : fields.assign key value = .ok fields') : fields'.OneLine := by
  unfold IdentityFields.assign at h
  -- of the eight branches one assigns a name, behind its guard
  split_ifs at h with _ hname
  · obtain ⟨_, -, h⟩ := bind_eq_ok.mp h
    cases h
    exact hone
  · cases h
    intro name hsome
    cases hsome
    exact hname.2
  · obtain ⟨_, -, h⟩ := bind_eq_ok.mp h
    cases h
    exact hone
  · obtain ⟨_, -, h⟩ := bind_eq_ok.mp h
    cases h
    exact hone
  · cases h
    exact hone
  · obtain ⟨_, -, h⟩ := bind_eq_ok.mp h
    cases h
    exact hone
  · obtain ⟨_, -, h⟩ := bind_eq_ok.mp h
    cases h
    exact hone

/-- By induction on the lines. -/
theorem OneLine.readLines {ls : List String} (hone : fields.OneLine)
    (h : ls.foldlM IdentityFields.readLine fields = .ok fields') : fields'.OneLine := by
  induction ls generalizing fields with
  | nil =>
      rw [List.foldlM_nil, pure_eq_ok, Except.ok.injEq] at h
      rw [← h]
      exact hone
  | cons line ls ih =>
      rw [List.foldlM_cons, bind_eq_ok] at h
      obtain ⟨fields₁, hline, hrest⟩ := h
      simp only [IdentityFields.readLine, bind_eq_ok] at hline
      obtain ⟨⟨key, value⟩, -, hassign⟩ := hline
      exact ih (OneLine.assign hone hassign) hrest

/-- No line feed comes back in a name. -/
theorem newline_notMem_of_deserialize (h : deserializeIdentityText text = .ok identity) :
    '\n' ∉ identity.displayName.toList := by
  simp only [deserializeIdentityText, bind_eq_ok] at h
  obtain ⟨-, -, fields, hfields, hfinish⟩ := h
  have hone : fields.OneLine := by
    refine OneLine.readLines ?_ hfields
    intro name hname
    cases hname
  simp only [IdentityFields.finish, bind_eq_ok, okOr_eq_ok, pure_eq_ok, Except.ok.injEq] at hfinish
  obtain ⟨_, -, _, -, _, -, _, -, name, hname, _, -, _, -, _, -, -, -, rfl⟩ := hfinish
  exact hone name hname

/-- A generated identity with a name of one line is read back. -/
theorem deserializeIdentityText_of_generate {platform : TransferPlatform} {draws : GenerateDraws}
    {name : String} {keypair : DeviceKeypair}
    (h : generate platform draws name = .ok (identity, keypair)) (hnewline : '\n' ∉ name.toList)
    (hcr : name.toList.getLast? ≠ some '\r') :
    deserializeIdentityText (serializeIdentityText identity) = .ok identity := by
  have hnonempty : name ≠ "" := by
    rintro rfl
    rw [generate, rejectIf_pos _ rfl] at h
    cases h
  rw [← displayName_of_generate h] at hnewline hcr hnonempty
  rw [deserializeIdentityText_of_oneLine (generate_eq_ok h).2.2.1
    (trustState_of_generate h) hnewline, stripCr_eq_self.mpr hcr, String.ofList_toList,
      if_neg hnonempty]

/-- A generated identity is read back exactly when its name holds no line
feed and does not end in a carriage return. -/
theorem deserializeIdentityText_of_generate_iff {platform : TransferPlatform}
    {draws : GenerateDraws}
    {name : String} {keypair : DeviceKeypair}
    (h : generate platform draws name = .ok (identity, keypair)) :
    deserializeIdentityText (serializeIdentityText identity) = .ok identity
      ↔ '\n' ∉ name.toList ∧ name.toList.getLast? ≠ some '\r' := by
  have hkey := (generate_eq_ok h).2.2.1
  have htrust := trustState_of_generate h
  have hname := displayName_of_generate h
  constructor
  · intro hread
    have hnewline := newline_notMem_of_deserialize hread
    rw [deserializeIdentityText_of_oneLine hkey htrust hnewline] at hread
    rw [← hname]
    refine ⟨hnewline, stripCr_eq_self.mp ?_⟩
    split at hread
    case isTrue => cases hread
    case isFalse =>
      have hsame := congrArg DeviceIdentity.displayName (Except.ok.inj hread)
      have hlist := congrArg String.toList hsame
      rwa [String.toList_ofList] at hlist
  · rintro ⟨hnewline, hcr⟩
    exact deserializeIdentityText_of_generate h hnewline hcr

/-- A device with an ordinary name. -/
theorem deserializeIdentityText_of_device :
    ∃ (identity : DeviceIdentity) (keypair : DeviceKeypair),
      generate TransferPlatform.transparent sampleGenerateDraws "device" = .ok (identity, keypair)
      ∧ deserializeIdentityText (serializeIdentityText identity) = .ok identity := by
  obtain ⟨identity, keypair, hgenerate⟩ := sample_generated TransferPlatform.transparent
  exact ⟨identity, keypair, hgenerate,
    (deserializeIdentityText_of_generate_iff hgenerate).mpr ⟨by decide, by decide⟩⟩

/-- A name of two lines, the second with another device id. -/
def overridingName : String := "Laptop\ndevice_id=07070707070707070707070707070707"

/-- The name goes over two lines, and the second is read as a field: the
text reads back to a device of another id. -/
theorem deserializeIdentityText_overridden :
    ∃ (identity : DeviceIdentity) (keypair : DeviceKeypair),
      generate TransferPlatform.transparent sampleGenerateDraws overridingName = .ok
        (identity, keypair)
      ∧ deserializeIdentityText (serializeIdentityText identity)
        = .ok { identity with displayName := "Laptop", deviceId := List.Vector.replicate 16 7 }
      ∧ identity.deviceId ≠ List.Vector.replicate 16 7 := by
  obtain ⟨identity, keypair, hgenerate⟩ : ∃ identity keypair,
      generate TransferPlatform.transparent sampleGenerateDraws overridingName
        = .ok (identity, keypair) := by
    cases h : generate TransferPlatform.transparent sampleGenerateDraws overridingName with
    | ok pair => exact ⟨pair.1, pair.2, rfl⟩
    | error e =>
        rw [generate, rejectIf_neg _ (by decide : ¬ overridingName = "")] at h
        cases h
  have hkey := (generate_eq_ok hgenerate).2.2.1
  have htrust := trustState_of_generate hgenerate
  have hname := displayName_of_generate hgenerate
  refine ⟨identity, keypair, hgenerate, ?_, ?_⟩
  · have htwo : "display_name=" ++ overridingName ++ "\n"
        = "display_name=" ++ "Laptop" ++ "\n"
          ++ ("device_id=" ++ hexEncode (List.Vector.replicate 16 (7 : UInt8)).toList
            ++ "\n") := rfl
    have hlines : lines ("display_name=" ++ identity.displayName ++ "\n")
        = ["display_name=" ++ "Laptop",
          "device_id=" ++ hexEncode (List.Vector.replicate 16 (7 : UInt8)).toList] := by
      rw [hname, htwo, lines_append_newline, lines_of_clean, lines_of_clean]
      · rfl
      · exact Clean.append ⟨by decide, by decide⟩ (clean_hexEncode _)
      · exact ⟨by decide, by decide⟩
    have hnamed : (lines ("display_name=" ++ identity.displayName ++ "\n")).foldlM
        IdentityFields.readLine { deviceId := some identity.deviceId } = .ok
          { deviceId := some (List.Vector.replicate 16 7)
            displayName := some "Laptop" } := by
      rw [hlines, List.foldlM_cons, readLine_display_name (by decide), ok_bind, List.foldlM_cons,
        readLine_device_id]
      rfl
    rw [deserializeIdentityText_of_serialize hkey hnamed]
    exact (@finish_of_complete { identity with deviceId := List.Vector.replicate 16 7 }
      "Laptop" _ hkey htrust).trans (if_neg (by decide))
  · simp only [generate, x25519Keypair, bind_eq_ok, pure_eq_ok, Except.ok.injEq, Prod.mk.injEq]
      at hgenerate
    obtain ⟨-, -, createdAt, -, rfl, rfl⟩ := hgenerate
    show sampleGenerateDraws.deviceId ≠ List.Vector.replicate 16 7
    decide

end MeissnerSeal
