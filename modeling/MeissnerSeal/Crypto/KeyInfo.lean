/-
Domain separation of the keys that HKDF expands.

# The infos

Four operations expand a key: the subkeys of the registry, whose `info` names
the purpose, the vault and the cipher, and three with an `info` of their own
(`KeyUse`). The label of a subkey stands between the first two colons, and no
label has a colon; the vault id has one length; the number of the cipher ends
the text (`buildSubkeyInfo_inj`).

# Across uses

One label, `export-bundle`, also begins the `info` of the export bundle's
key; the two part behind it, where the one names a vault and the other ends.
No two uses expand the same `info` (`keyInfos_apart`), so where the expansion
is free of collisions no key has two uses (`KeyUse.Expands.unique`).
-/
import MeissnerSeal.Crypto.Pqc
import MeissnerSeal.Lib.TextLines

namespace MeissnerSeal

open ByteCodec ExceptRules TextLines

-- ================================================================= labels

/-- An info by what stands between its first two colons, and behind them. -/
def labelledInfo (label rest : String) : String := "meissnerseal:" ++ (label ++ (":" ++ rest))

/-- Labels without a colon end at the first. -/
theorem labelledInfo_inj {label label' rest rest' : String} (hlabel : ':' ∉ label.toList)
    (hlabel' : ':' ∉ label'.toList) (h : labelledInfo label rest = labelledInfo label' rest') :
    label = label' ∧ rest = rest' := by
  have hsplit : splitOnce ':' (label ++ ":" ++ rest) = some (label, rest) :=
    splitOnce_append hlabel rest
  have hsplit' : splitOnce ':' (label' ++ ":" ++ rest') = some (label', rest') :=
    splitOnce_append hlabel' rest'
  have hsame := (String.append_right_inj _).mp h
  rw [← String.append_assoc, ← String.append_assoc] at hsame
  rw [hsame, hsplit', Option.some.injEq, Prod.mk.injEq] at hsplit
  exact ⟨hsplit.1.symm, hsplit.2.symm⟩

theorem SubkeyPurpose.colon_notMem_infoLabel (purpose : SubkeyPurpose) :
    ':' ∉ purpose.infoLabel.toList := by
  cases purpose <;> decide

theorem SubkeyPurpose.infoLabel_injective : Function.Injective infoLabel := by
  intro purpose purpose' h
  cases purpose <;> cases purpose' <;> first | rfl | exact absurd h (by decide)

-- =========================================================== subkey infos

/-- How an info ends: the number of the cipher, for the purposes with one. -/
def aeadSuffix : Option UInt16 → String
  | some id => ":aead:" ++ toString id.toNat
  | none => ""

theorem aeadSuffix_inj {aeadId aeadId' : Option UInt16} (hsome : aeadId.isSome = aeadId'.isSome)
    (h : aeadSuffix aeadId = aeadSuffix aeadId') : aeadId = aeadId' := by
  cases aeadId with
  | none =>
      cases aeadId' with
      | none => rfl
      | some id' => cases hsome
  | some id =>
      cases aeadId' with
      | none => cases hsome
      | some id' =>
          have hlist := congrArg String.toList h
          simp only [aeadSuffix, String.toList_append, List.append_cancel_left_eq,
            Nat.toString_eq_ofList_toDigits, String.toList_ofList] at hlist
          have hnum := congrArg (fun digits => Nat.ofDigitChars 10 digits 0) hlist
          simp only [Nat.ofDigitChars_ten_toDigits] at hnum
          exact congrArg some (UInt16.toNat_inj.mp hnum)

/-- A triple has an info when it names a cipher just where the
purpose needs one. -/
theorem buildSubkeyInfo_eq_ok {purpose : SubkeyPurpose} {vaultId : U8Array 16}
    {aeadId : Option UInt16} {info : String} :
    buildSubkeyInfo purpose vaultId aeadId = .ok info
      ↔ aeadId.isSome = purpose.needsAead
        ∧ info = labelledInfo purpose.infoLabel
          ("v1:vault:" ++ (hexBytes vaultId.toList ++ aeadSuffix aeadId)) := by
  have hcolon : ":v1:vault:" = ":" ++ "v1:vault:" := rfl
  simp only [buildSubkeyInfo, labelledInfo, hcolon, String.append_assoc]
  cases hneeds : purpose.needsAead <;> cases aeadId <;> simp [aeadSuffix, eq_comm]

/-- The info of a subkey determines its purpose, its vault and its cipher. -/
theorem buildSubkeyInfo_inj {purpose purpose' : SubkeyPurpose} {vaultId vaultId' : U8Array 16}
    {aeadId aeadId' : Option UInt16} {info : String}
    (h : buildSubkeyInfo purpose vaultId aeadId = .ok info)
    (h' : buildSubkeyInfo purpose' vaultId' aeadId' = .ok info) :
    purpose = purpose' ∧ vaultId = vaultId' ∧ aeadId = aeadId' := by
  obtain ⟨hsome, rfl⟩ := buildSubkeyInfo_eq_ok.mp h
  obtain ⟨hsome', hinfo⟩ := buildSubkeyInfo_eq_ok.mp h'
  obtain ⟨hlabel, hrest⟩ := labelledInfo_inj purpose.colon_notMem_infoLabel
    purpose'.colon_notMem_infoLabel hinfo
  obtain rfl := SubkeyPurpose.infoLabel_injective hlabel
  have hlist := congrArg String.toList ((String.append_right_inj _).mp hrest)
  rw [String.toList_append, String.toList_append] at hlist
  obtain ⟨hhex, hsuffix⟩ := List.append_inj hlist (by
    rw [String.length_toList, String.length_toList, length_hexBytes, length_hexBytes,
      List.Vector.toList_length, List.Vector.toList_length])
  have hvault := List.Vector.toList_injective (hexBytes_inj (String.toList_injective hhex))
  exact ⟨rfl, hvault, aeadSuffix_inj (hsome.trans hsome'.symm) (String.toList_injective hsuffix)⟩

-- ============================================================ across uses

/-- What HKDF expands a key for. -/
inductive KeyUse where
  | subkey (purpose : SubkeyPurpose) (vaultId : U8Array 16) (aeadId : Option UInt16)
  | vaultKek
  | exportBundle
  | transfer

/-- The info that is expanded. -/
def KeyUse.info : KeyUse → Except KdfError Bytes
  | .subkey purpose vaultId aeadId => do
      let info ← buildSubkeyInfo purpose vaultId aeadId
      return utf8 info
  | .vaultKek => .ok vkekInfoV1
  | .exportBundle => .ok exportBundleInfo
  | .transfer => .ok transferKeyInfo

variable {purpose purpose' : SubkeyPurpose} {vaultId vaultId' : U8Array 16}
  {aeadId aeadId' : Option UInt16} {info : String}

/-- No subkey's info is one of the fixed ones: the label `vault-kek` is no
purpose's, behind `export-bundle` a subkey goes on, and the transfer key's
info has no colon. -/
theorem fixedInfo_ne (h : buildSubkeyInfo purpose vaultId aeadId = .ok info) :
    utf8 info ≠ vkekInfoV1 ∧ utf8 info ≠ exportBundleInfo ∧ utf8 info ≠ transferKeyInfo := by
  obtain ⟨-, rfl⟩ := buildSubkeyInfo_eq_ok.mp h
  refine ⟨fun hsame => ?_, fun hsame => ?_, fun hsame => ?_⟩
  · have hkek : "meissnerseal:vault-kek:v1" = labelledInfo "vault-kek" "v1" := by decide
    obtain ⟨hlabel, -⟩ := labelledInfo_inj purpose.colon_notMem_infoLabel (by decide)
      ((utf8_inj hsame).trans hkek)
    cases purpose <;> exact absurd hlabel (by decide)
  · have hbundle : "meissnerseal:export-bundle:v1" = labelledInfo "export-bundle" "v1" := by decide
    obtain ⟨-, hrest⟩ := labelledInfo_inj purpose.colon_notMem_infoLabel (by decide)
      ((utf8_inj hsame).trans hbundle)
    have hlen := congrArg String.length hrest
    have hvault : "v1:vault:".length = 9 := rfl
    have hv1 : "v1".length = 2 := rfl
    rw [String.length_append, hvault, hv1] at hlen
    omega
  · have hhead := congrArg (fun text => text.toList.take 13) (utf8_inj hsame)
    simp only [labelledInfo, String.toList_append] at hhead
    rw [List.take_left' (by decide)] at hhead
    exact absurd hhead (by decide)

theorem KeyUse.info_subkey_eq_ok {x : Bytes} :
    (subkey purpose vaultId aeadId).info = .ok x
      ↔ ∃ info, buildSubkeyInfo purpose vaultId aeadId = .ok info ∧ utf8 info = x := by
  simp only [KeyUse.info, bind_eq_ok, pure_eq_ok, Except.ok.injEq]

/-- The three fixed infos have three lengths. -/
theorem fixedInfos_apart :
    vkekInfoV1 ≠ exportBundleInfo ∧ vkekInfoV1 ≠ transferKeyInfo
      ∧ exportBundleInfo ≠ transferKeyInfo := by
  have hkek : vkekInfoV1.length = 25 := rfl
  have hbundle : exportBundleInfo.length = 29 := rfl
  have htransfer : transferKeyInfo.length = 24 := rfl
  refine ⟨fun h => ?_, fun h => ?_, fun h => ?_⟩
  · rw [h, hbundle] at hkek
    cases hkek
  · rw [h, htransfer] at hkek
    cases hkek
  · rw [h, htransfer] at hbundle
    cases hbundle

/-- Two uses that expand one info are one use. -/
theorem KeyUse.info_inj {use use' : KeyUse} {x : Bytes} (h : use.info = .ok x)
    (h' : use'.info = .ok x) : use = use' := by
  obtain ⟨hkekBundle, hkekTransfer, hbundleTransfer⟩ := fixedInfos_apart
  cases use with
  | subkey purpose vaultId aeadId =>
      obtain ⟨info, hinfo, rfl⟩ := info_subkey_eq_ok.mp h
      obtain ⟨hkek, hbundle, htransfer⟩ := fixedInfo_ne hinfo
      cases use' with
      | subkey purpose' vaultId' aeadId' =>
          obtain ⟨info', hinfo', hsame⟩ := info_subkey_eq_ok.mp h'
          obtain rfl := utf8_inj hsame
          obtain ⟨rfl, rfl, rfl⟩ := buildSubkeyInfo_inj hinfo hinfo'
          rfl
      | vaultKek => exact absurd (Except.ok.inj h').symm hkek
      | exportBundle => exact absurd (Except.ok.inj h').symm hbundle
      | transfer => exact absurd (Except.ok.inj h').symm htransfer
  | vaultKek =>
      obtain rfl := Except.ok.inj h
      cases use' with
      | subkey purpose' vaultId' aeadId' =>
          obtain ⟨info', hinfo', hsame⟩ := info_subkey_eq_ok.mp h'
          exact absurd hsame (fixedInfo_ne hinfo').1
      | vaultKek => rfl
      | exportBundle => exact absurd (Except.ok.inj h').symm hkekBundle
      | transfer => exact absurd (Except.ok.inj h').symm hkekTransfer
  | exportBundle =>
      obtain rfl := Except.ok.inj h
      cases use' with
      | subkey purpose' vaultId' aeadId' =>
          obtain ⟨info', hinfo', hsame⟩ := info_subkey_eq_ok.mp h'
          exact absurd hsame (fixedInfo_ne hinfo').2.1
      | vaultKek => exact absurd (Except.ok.inj h') hkekBundle
      | exportBundle => rfl
      | transfer => exact absurd (Except.ok.inj h').symm hbundleTransfer
  | transfer =>
      obtain rfl := Except.ok.inj h
      cases use' with
      | subkey purpose' vaultId' aeadId' =>
          obtain ⟨info', hinfo', hsame⟩ := info_subkey_eq_ok.mp h'
          exact absurd hsame (fixedInfo_ne hinfo').2.2
      | vaultKek => exact absurd (Except.ok.inj h') hkekTransfer
      | exportBundle => exact absurd (Except.ok.inj h') hbundleTransfer
      | transfer => rfl

/-- Subkey infos are equal only for one purpose, vault and cipher; none is a
fixed info; and of all uses together, no two expand one info. -/
theorem keyInfos_apart :
    (∀ {purpose purpose' : SubkeyPurpose} {vaultId vaultId' : U8Array 16}
        {aeadId aeadId' : Option UInt16} {info : String},
        buildSubkeyInfo purpose vaultId aeadId = .ok info →
        buildSubkeyInfo purpose' vaultId' aeadId' = .ok info →
        purpose = purpose' ∧ vaultId = vaultId' ∧ aeadId = aeadId')
      ∧ (∀ {purpose : SubkeyPurpose} {vaultId : U8Array 16} {aeadId : Option UInt16}
          {info : String}, buildSubkeyInfo purpose vaultId aeadId = .ok info →
          utf8 info ≠ vkekInfoV1 ∧ utf8 info ≠ exportBundleInfo ∧ utf8 info ≠ transferKeyInfo)
      ∧ ∀ {use use' : KeyUse} {x : Bytes}, use.info = .ok x → use'.info = .ok x → use = use' :=
  ⟨buildSubkeyInfo_inj, fixedInfo_ne, KeyUse.info_inj⟩

/-- The subkey that shares its label with the key of the export bundle. -/
theorem keyInfos_apart_of_exportBundleKey :
    ∃ info, buildSubkeyInfo .exportBundleKey (List.Vector.replicate 16 0) none = .ok info
      ∧ utf8 info ≠ exportBundleInfo := by
  obtain ⟨info, hinfo⟩ : ∃ info,
      buildSubkeyInfo .exportBundleKey (List.Vector.replicate 16 0) none = .ok info := ⟨_, rfl⟩
  exact ⟨info, hinfo, (keyInfos_apart.2.1 hinfo).2.1⟩

-- ================================================================== keys

/-- A key HKDF expanded for a use. -/
def KeyUse.Expands (kdf : KdfBackend) (use : KeyUse) (key : Key) : Prop :=
  ∃ prk info, use.info = .ok info ∧ kdf.expand prk info = some key

variable {kdf : KdfBackend} {key : Key}

theorem expands_of_deriveSubkey {rootPrk : Key}
    (h : deriveSubkey kdf rootPrk purpose vaultId aeadId = .ok key) :
    (KeyUse.subkey purpose vaultId aeadId).Expands kdf key := by
  simp only [deriveSubkey, expand, bind_eq_ok, okOr_eq_ok] at h
  obtain ⟨info, hinfo, hkey⟩ := h
  exact ⟨rootPrk, utf8 info, KeyUse.info_subkey_eq_ok.mpr ⟨info, hinfo, rfl⟩, hkey⟩

theorem expands_of_deriveVkek {masterUnlockKey : Key}
    (h : deriveVkek kdf masterUnlockKey vaultId = .ok key) : KeyUse.vaultKek.Expands kdf key :=
  ⟨_, vkekInfoV1, rfl, okOr_eq_ok.mp h⟩

theorem expands_of_deriveExportBundleKey {passphrase : Bytes} {params : Argon2Params}
    (h : deriveExportBundleKey kdf passphrase vaultId params = .ok key) :
    KeyUse.exportBundle.Expands kdf key := by
  simp only [deriveExportBundleKey, expand, bind_eq_ok, okOr_eq_ok] at h
  obtain ⟨muk, -, hkey⟩ := h
  exact ⟨muk, exportBundleInfo, rfl, hkey⟩

theorem expands_of_deriveTransferKeyFromSharedParts {platform : TransferPlatform}
    {pqcSharedSecret : SharedSecret} {ssX25519 : Key} {sender recipient : X25519PublicKey}
    {ciphertext : MlKemCiphertext} {transcriptHash : U8Array 32}
    (h : deriveTransferKeyFromSharedParts platform pqcSharedSecret ssX25519 sender
      recipient ciphertext
      transcriptHash = .ok key) :
    KeyUse.transfer.Expands platform.kdf key :=
  ⟨_, transferKeyInfo, rfl, okOr_eq_ok.mp h⟩

/-- Where the expansion is free of collisions, whatever it is keyed with, a
key has one use. -/
theorem KeyUse.Expands.unique
    (hexpand : ∀ prk prk' x y key, kdf.expand prk x = some key →
      kdf.expand prk' y = some key → x = y)
    {use use' : KeyUse} (h : use.Expands kdf key) (h' : use'.Expands kdf key) : use = use' := by
  obtain ⟨prk, x, hx, hkey⟩ := h
  obtain ⟨prk', y, hy, hkey'⟩ := h'
  obtain rfl := hexpand prk prk' x y key hkey hkey'
  exact KeyUse.info_inj hx hy

end MeissnerSeal
