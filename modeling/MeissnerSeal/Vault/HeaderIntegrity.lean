/-
Which header fields an `unlock` protects.

# What binds a field

The header carries no tag of its own. The vault id stands in the
associated data of the root key, the KDF parameters are an input of the
key that wraps it, the header nonce salts the key of the table, and the
profiles have one supported value each. The creation time is in none of
these: by the record AAD of the format it is not meant to be, and any
value of it is accepted (`Stored.createdAt_unbound`).
-/
import MeissnerSeal.Vault.Authentic
import MeissnerSeal.Vault.History

namespace MeissnerSeal

open ByteCodec ExceptRules

variable {β : Type} {platform : Platform} {v : VaultIdentity platform} {path : Path}

/-- The derivations tell a header from the vault's: no two of its
wrapping keys, and no two of its metadata keys, collide. -/
structure VaultIdentity.DerivesApart (v : VaultIdentity platform)
    (header : VaultHeader) : Prop where
  kek : ∀ kek, vaultKek platform v.password v.header.vaultId header.kdfParams = .ok kek →
    vaultKek platform v.password v.header.vaultId v.header.kdfParams = .ok kek →
    header.kdfParams = v.header.kdfParams
  metadataKey : ∀ keys, deriveSessionKeys platform v.password v.header.vaultId header.headerNonce
      v.header.profileSet.aeadProfile v.header.kdfParams v.wrkFrame.ciphertext v.wrkFrame.nonce
      v.wrkFrame.storedAad = .ok keys →
    keys.metadataKey = v.keys.metadataKey → header.headerNonce = v.header.headerNonce

/-- An accepted file has the vault's header, up to the creation time. -/
theorem VaultIdentity.Accepts.header_eq {bytes image : Bytes} {session : UnlockedVault}
    {head : VaultHead} {entries : List RecordTableEntry} {records : List PendingRecord}
    (h : v.Accepts bytes session head entries records image) (hapart : v.DerivesApart head.header) :
    head.header = { v.header with createdAt := head.header.createdAt } := by
  obtain ⟨kek, hkek, hkek'⟩ := h.kek_eq
  have hparams := hapart.kek kek hkek hkek'
  have hderived := h.derived
  have hprofile : head.header.profileSet = v.header.profileSet := by
    rw [head.header.profileSet.eq_supported, v.header.profileSet.eq_supported]
  rw [VaultHead.deriveKeys, h.vaultId_eq, h.wrkFrame_eq, hparams, hprofile] at hderived
  have hnonce := hapart.metadataKey _ hderived h.metadataKey_eq
  have hparsed := h.head_of.header_parsed
  obtain ⟨hformat, hschema, haead, hkdf, hpqc⟩ :=
    supported_of_parseHeader (length_le_of_parseHeader hparsed) hparsed
  obtain ⟨-, -, hkdfProfile, hpqcProfile⟩ := v.profiles_eq
  obtain ⟨hvformat, hvschema, hvaead⟩ := v.profiles
  have hvkdf : v.header.kdfProfile = kdfArgon2idV1 := by
    rw [← hkdfProfile, v.header.profileSet.eq_supported]
    rfl
  have hvpqc : v.header.pqcProfile = pqcNone := by
    rw [← hpqcProfile, v.header.profileSet.eq_supported]
    rfl
  have hvault := h.vaultId_eq
  generalize head.header = header at *
  generalize v.header = header' at *
  obtain ⟨vaultId, createdAt, format, schema, aead, kdf, params, pqc, nonce, profileSet⟩ := header
  obtain ⟨vaultId', createdAt', format', schema', aead', kdf', params', pqc', nonce',
    profileSet'⟩ :=
    header'
  simp only at *
  rw [hvault, hformat, hvformat, hschema, hvschema, haead, hvaead, hkdf, hvkdf,
    hparams, hpqc, hvpqc, hnonce, hprofile]

/-- The file under another header of the same vault id. -/
theorem Image.exists_withHeader {records : List PendingRecord} {bytes headerBytes : Bytes}
    {header : VaultHeader} (h : Image v records bytes)
    (hser : serializeHeader header = .ok headerBytes)
    (hvault : header.vaultId = v.header.vaultId) :
    ∃ (bytes' : Bytes) (tableLen : UInt32),
      HeadOf bytes' ⟨header, 147, tableLen, v.wrkFrame, v.wrkBytes⟩ := by
  obtain ⟨entries, frames, table, prefixBytes, draw, headerLen, tableLen, bodyLen, hlayout, htable,
    hleading, hheaderLen, htableLen, hbodyLen, hbytes, hnodup⟩ := h
  have hlen := length_of_serializeHeader hser
  have hlenOld := v.length_headerBytes
  have hwrk := v.length_wrkBytes
  have hmax : bytes.length ≤ usizeMax := by
    have himage : Image v records bytes := ⟨entries, frames, table, prefixBytes, draw, headerLen,
      tableLen, bodyLen, hlayout, htable, hleading, hheaderLen, htableLen, hbodyLen, hbytes, hnodup⟩
    obtain ⟨-, -, -, -, -, -, -, -, -, -, -, hmax, -⟩ := himage.parts
    exact hmax
  have hlen147 : headerLen = 147 := UInt32.toNat_inj.mp (hheaderLen.trans hlenOld)
  obtain ⟨hleadingLen, -, -, h10, h14, -, hrest⟩ :=
    segAt_front (headerBytes ++ (v.wrkBytes ++ (table ++ frames))) hleading
  rw [segAt_append, segAt_append, hlen] at hrest
  have hparse : parseHeader (prefixBytes ++ (headerBytes ++ (v.wrkBytes ++ (table ++ frames))))
      = .ok header := by
    refine parseHeader_of_serialize hser hleading (hheaderLen.trans (hlenOld.trans hlen.symm)) ?_
      hbodyLen ?_
    · rw [htableLen, hbodyLen]
      simp only [List.length_append]
      omega
    · rw [hbytes] at hmax
      simp only [List.length_append, hlen, hlenOld] at hmax ⊢
      exact hmax
  obtain ⟨hformat, hschema, haead, hkdf, hpqc⟩ :=
    supported_of_parseHeader (length_le_of_parseHeader hparse) hparse
  obtain ⟨hvschema, hvaead, hvkdf, hvpqc⟩ := v.profiles_eq
  refine ⟨_, tableLen, hparse, hlen147 ▸ h10, h14, v.wrk_serialized, hrest.2.1, ?_,
    v.wrk_version, ?_, ?_⟩
  · rw [hwrk]
    decide
  · rw [v.wrk_ciphertext]
    decide
  · rw [v.wrk_aad, itemRecordAad, hvault, hformat, hschema, haead, hkdf, hpqc, v.profiles.1,
      v.profiles.2.1, v.profiles.2.2, ← hvkdf, ← hvpqc, v.header.profileSet.eq_supported]
    rfl

/-- Under an ideal cipher and ideal derivations, no file whose header differs
from the vault's beyond the creation time unlocks with the right password. -/
theorem header_protected {password : Bytes} {fs₀ : Fs} {st : VaultState} {calls : Calls β}
    (h : History platform path password fs₀ st calls) (hnodup : (drawnIds calls).Nodup) :
    ∃ (v : VaultIdentity platform) (m : ItemMap) (bytes : Bytes), v.password = password
      ∧ Reached v path st (drawnIds calls) m bytes ∧ parseHeader bytes = .ok v.header
      ∧ ∀ (bytes' : Bytes) (header' : VaultHeader), parseHeader bytes' = .ok header' →
        header' ≠ { v.header with createdAt := header'.createdAt } →
        Authentic platform.cipher (UnlockAsks platform password bytes') v.Seals →
        v.DerivesApart header' →
        ∀ (io : IoFaults) (path' : Path) (fs : Fs), fs path' = some bytes' →
        ∃ e, (unlock platform io path' password fs).1 = .error e := by
  obtain ⟨v, m, bytes, rfl, hreached⟩ := h.reached hnodup
  obtain ⟨records, himage, -⟩ := hreached.stored
  obtain ⟨-, -, hheader, -⟩ := himage.parts
  refine ⟨v, m, bytes, rfl, hreached, hheader, ?_⟩
  intro bytes' header' hheader' hne hauth hapart io path' fs hfs
  rw [unlock_of_some v.password_ne hfs]
  cases io.read with
  | true => exact ⟨.io, rfl⟩
  | false =>
      cases hok : unlockBytes platform path' v.password bytes' with
      | error e => exact ⟨e, rfl⟩
      | ok session =>
          obtain ⟨head, entries, records', image, haccepts⟩ := v.accepted_of_unlock hauth hok
          have hsame := haccepts.head_of.header_parsed
          rw [hheader', Except.ok.injEq] at hsame
          subst hsame
          exact absurd (haccepts.header_eq hapart) hne

/-- A file whose memory cost was changed. -/
theorem header_protected_of_cost :
    ∃ (st : VaultState) (bytes bytes' : Bytes) (header header' : VaultHeader),
      History Platform.keyed samplePath samplePassword noFiles st ([] : Calls Unit)
      ∧ st.fs samplePath = some bytes ∧ parseHeader bytes = .ok header
      ∧ parseHeader bytes' = .ok header'
      ∧ header'.kdfParams.argon2.mCostKib ≠ header.kdfParams.argon2.mCostKib
      ∧ ∀ io, ∃ e, (unlock Platform.keyed io samplePath samplePassword
          (st.fs.set samplePath (some bytes'))).1 = .error e := by
  obtain ⟨st, session, hhistory, hsession, hoff⟩ : ∃ st session,
      History Platform.keyed samplePath samplePassword noFiles st ([] : Calls Unit)
        ∧ session ∈ st.sessions ∧ AgreesOff samplePath noFiles st.fs :=
    exists_unlocked Platform.keyed_total (⟨rfl, rfl, rfl, rfl, rfl, rfl, rfl, rfl⟩ :
      sampleCreateDraws.Drawn) (by decide) samplePath_hasTmp fun _ => rfl
  obtain ⟨v, m, bytes, hv, hreached, hparse, hprotected⟩ :=
    header_protected hhistory List.nodup_nil
  obtain ⟨records, himage, -⟩ := hreached.stored
  -- one of two costs is not the vault's
  obtain ⟨params, kdf, hkdf, hprofile, hcost⟩ : ∃ (params : HeaderKdfParams) (kdf : Bytes),
      serializeKdfProfileParams params = .ok kdf ∧ params.profileId = kdfArgon2idV1
        ∧ params.argon2.mCostKib ≠ v.header.kdfParams.argon2.mCostKib := by
    by_cases hcost : v.header.kdfParams.argon2.mCostKib = 65536
    · refine ⟨{ canonicalArgon2idV1 with
        argon2 := { canonicalArgon2idV1.argon2 with mCostKib := 65537 } }, _, rfl, rfl, ?_⟩
      rw [hcost]
      decide
    · exact ⟨canonicalArgon2idV1, _, rfl, rfl, fun heq => hcost heq.symm⟩
  obtain ⟨headerBytes, hser⟩ : ∃ x, serializeHeader { createdHeader v.header.vaultId
      v.header.createdAt v.header.headerNonce with kdfParams := params } = .ok x :=
    exists_serializeHeader_of_supported rfl rfl rfl rfl rfl hprofile hkdf
  obtain ⟨bytes', tableLen, hhead⟩ := himage.exists_withHeader hser rfl
  have hclosed : ∀ kek plaintext, vaultKek Platform.keyed samplePassword v.header.vaultId params
      = .ok kek → decrypt Platform.keyed.cipher kek v.wrkFrame.nonce v.wrkFrame.ciphertext
        v.wrkFrame.storedAad.toList ≠ .ok plaintext := by
    intro kek plaintext hkek hdec
    obtain ⟨kek', rootKey, hkek', hopens, -⟩ := deriveSessionKeys_eq_ok.mp v.keys_derived
    exact hcost (keyed_kek_inj hkek hkek' (keyed_take_of_opens hdec hopens)).1
  refine ⟨st, bytes, bytes', v.header, _, hhistory, hreached.file, hparse,
    hhead.header_parsed, hcost, fun io =>
      hprotected bytes' _ hhead.header_parsed ?_ ?_ ?_ io samplePath _ (Fs.set_self ..)⟩
  · intro hsame
    exact hcost (congrArg (fun header => header.kdfParams.argon2.mCostKib) hsame)
  · exact authentic_of_closed hhead hclosed
  · refine ⟨fun kek hkek hkek' => ?_, fun _ _ _ => rfl⟩
    rw [hv] at hkek'
    exact absurd (keyed_kek_inj (hv ▸ hkek) hkek' rfl).1 hcost

-- ======================================================== the creation time

/-- The vault under a header with another creation time. -/
def VaultIdentity.withCreatedAt (v : VaultIdentity platform) (createdAt : UInt64)
    (headerBytes : Bytes)
    (hser : serializeHeader { v.header with createdAt } = .ok headerBytes) :
    VaultIdentity platform :=
  { v with header := { v.header with createdAt }, headerBytes, header_serialized := hser }

/-- Another date makes a header that can be written as well. -/
theorem VaultIdentity.exists_serialized (v : VaultIdentity platform) (createdAt : UInt64) :
    ∃ headerBytes, serializeHeader { v.header with createdAt } = .ok headerBytes := by
  have hheader := v.header_serialized
  simp only [serializeHeader, bind_eq_ok, rejectIf_eq_ok, Decidable.not_not] at hheader
  obtain ⟨-, hformat, -, hschema, -, haead, -, hkdf, -, hpqc, -, -, -, hparams, _, -, _, -, kdf,
    hkdfSer, -⟩ := hheader
  have hset := v.header.profileSet.eq_supported
  refine exists_serializeHeader_of_supported hformat ?_ ?_ ?_ ?_ ?_ hkdfSer
  · rw [hschema, hset]
    rfl
  · rw [haead, hset]
    rfl
  · rw [hkdf, hset]
    rfl
  · rw [hpqc, hset]
    rfl
  · rw [← hparams, hkdf, hset]
    rfl

/-- Vaults that differ in the creation time have the same files,
header apart. -/
theorem Image.withCreatedAt {createdAt : UInt64} {headerBytes : Bytes}
    {hser : serializeHeader { v.header with createdAt } = .ok headerBytes}
    {records : List PendingRecord} {bytes : Bytes} (h : Image v records bytes) :
    ∃ bytes', Image (v.withCreatedAt createdAt headerBytes hser) records bytes'
      ∧ ∀ x, SegAt bytes tableOffset x → SegAt bytes' tableOffset x := by
  obtain ⟨entries, frames, table, prefixBytes, draw, headerLen, tableLen, bodyLen, hlayout, htable,
    hleading, hheaderLen, htableLen, hbodyLen, rfl, hnodup⟩ := h
  have hlen := length_of_serializeHeader hser
  have hlenOld := v.length_headerBytes
  refine ⟨prefixBytes ++ (headerBytes ++ (v.wrkBytes ++ (table ++ frames))),
    ⟨entries, frames, table, prefixBytes, draw, headerLen, tableLen, bodyLen, hlayout, htable,
      hleading, ?_, htableLen, hbodyLen, rfl, hnodup⟩, ?_⟩
  · exact hheaderLen.trans (hlenOld.trans hlen.symm)
  · intro x hx
    have hleadingLen : prefixBytes.length = 26 := (segAt_front [] hleading).1
    have hwrk := v.length_wrkBytes
    have hparts : ∀ header : Bytes, header.length = 147 →
        SegAt (prefixBytes ++ (header ++ (v.wrkBytes ++ (table ++ frames)))) tableOffset
          (table ++ frames) := by
      intro header hheader
      refine ⟨prefixBytes ++ (header ++ v.wrkBytes), [], by simp, ?_⟩
      simp only [List.length_append, hleadingLen, hheader, hwrk, tableOffset]
    have hold := hparts v.headerBytes hlenOld
    have hle := hx.le
    simp only [List.length_append, hleadingLen, hlenOld, hwrk] at hle
    have hin : SegAt (table ++ frames) 0 x := by
      refine hold.within hx ?_
      have hoff : tableOffset = 369 := rfl
      rw [List.length_append]
      omega
    exact (hparts headerBytes hlen).trans hin

/-- What the program seals does not depend on the creation time. -/
theorem VaultIdentity.Seals.of_withCreatedAt {createdAt : UInt64} {headerBytes : Bytes}
    {hser : serializeHeader { v.header with createdAt } = .ok headerBytes} {s : Sealing}
    (h : (v.withCreatedAt createdAt headerBytes hser).Seals s) : v.Seals s := by
  cases h with
  | wrk hkek => exact .wrk hkek
  | table himage hat hlen =>
      obtain ⟨bytes, himage', hsame⟩ : ∃ bytes,
          Image ((v.withCreatedAt createdAt headerBytes hser).withCreatedAt v.header.createdAt
            v.headerBytes v.header_serialized) _ bytes
          ∧ ∀ x, SegAt _ tableOffset x → SegAt bytes tableOffset x :=
        himage.withCreatedAt
      exact .table himage' (hsame _ hat) hlen
  | record hkind => exact .record hkind

/-- Any creation time is accepted, and the session is the same. -/
theorem Stored.createdAt_unbound {m : ItemMap} {bytes : Bytes} (h : Stored v m bytes)
    (hle : storedLen m ≤ maxVaultFileLen) (path : Path) (createdAt : UInt64) :
    ∃ bytes', parseHeader bytes' = .ok { v.header with createdAt }
      ∧ Authentic platform.cipher (UnlockAsks platform v.password bytes') v.Seals
      ∧ unlockBytes platform path v.password bytes' = .ok (v.session path) := by
  obtain ⟨headerBytes, hser⟩ := v.exists_serialized createdAt
  obtain ⟨records, himage, hrecords⟩ := h
  obtain ⟨bytes', himage', -⟩ : ∃ bytes',
      Image (v.withCreatedAt createdAt headerBytes hser) records bytes'
      ∧ ∀ x, SegAt bytes tableOffset x → SegAt bytes' tableOffset x :=
    himage.withCreatedAt
  have hstored : Stored (v.withCreatedAt createdAt headerBytes hser) m bytes' :=
    ⟨records, himage', hrecords⟩
  obtain ⟨-, -, hparse, -⟩ := himage'.parts
  refine ⟨bytes', hparse, himage'.authentic.mono (fun _ hs => hs) fun _ hs =>
    hs.of_withCreatedAt, ?_⟩
  have hunlock := hstored.unlockBytes_eq path
  rw [hstored.length_eq, if_neg (not_lt.mpr hle)] at hunlock
  exact hunlock

/-- A vault whose creation time was changed on disk unlocks, under a
cipher that opens nothing but the vault's own sealings. -/
theorem createdAt_changed_unlocks :
    ∃ (st : VaultState) (v : VaultIdentity Platform.keyed) (m : ItemMap) (bytes bytes' : Bytes)
      (header' : VaultHeader) (session : UnlockedVault),
      History Platform.keyed samplePath samplePassword noFiles st ([] : Calls Unit)
      ∧ v.password = samplePassword ∧ Reached v samplePath st [] m bytes
      ∧ parseHeader bytes = .ok v.header ∧ parseHeader bytes' = .ok header' ∧ header' ≠ v.header
      ∧ Authentic Platform.keyed.cipher (UnlockAsks Platform.keyed samplePassword bytes') v.Seals
      ∧ v.DerivesApart header'
      ∧ (unlock Platform.keyed IoFaults.none samplePath samplePassword
          (st.fs.set samplePath (some bytes'))).1 = .ok session := by
  obtain ⟨st, session, hhistory, hsession, hoff⟩ : ∃ st session,
      History Platform.keyed samplePath samplePassword noFiles st ([] : Calls Unit)
        ∧ session ∈ st.sessions ∧ AgreesOff samplePath noFiles st.fs :=
    exists_unlocked Platform.keyed_total (⟨rfl, rfl, rfl, rfl, rfl, rfl, rfl, rfl⟩ :
      sampleCreateDraws.Drawn) (by decide) samplePath_hasTmp fun _ => rfl
  obtain ⟨v, m, bytes, hv, hreached⟩ := hhistory.reached List.nodup_nil
  have hempty := hreached.eq_empty
  subst hempty
  obtain ⟨bytes', hparse', hauth, hunlock⟩ :=
    hreached.stored.createdAt_unbound (by decide) samplePath (v.header.createdAt + 1)
  obtain ⟨records, himage, -⟩ := hreached.stored
  obtain ⟨-, -, hparse, -⟩ := himage.parts
  rw [hv] at hauth hunlock
  refine ⟨st, v, _, bytes, bytes', _, v.session samplePath, hhistory, hv, hreached, hparse,
    hparse', ?_, hauth, ⟨fun _ _ _ => rfl, fun _ _ _ => rfl⟩, ?_⟩
  · intro hsame
    have hcreated := congrArg VaultHeader.createdAt hsame
    simp at hcreated
  · rw [unlock_of_some (by decide) (Fs.set_self ..), hunlock]
    rfl

end MeissnerSeal
