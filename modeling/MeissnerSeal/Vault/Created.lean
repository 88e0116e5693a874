/-
What `create` leaves on disk, and what `unlock` makes of a vault file.

# One identity

A successful `create` fixes a `VaultIdentity` and stores the empty map
under it. `unlock` with the creation password gives back the session of
that identity, from every file that stores a map under it, as long as
the file is not over the ceiling `unlock` checks.
-/
import MeissnerSeal.Item.Calls

namespace MeissnerSeal

open ByteCodec ExceptRules

variable {platform : Platform}

-- ================================================================ create

/-- The bytes a `create` writes store the empty map. -/
theorem stored_of_createdVaultBytes {draws : CreateDraws} {vaultId : U8Array 16}
    {headerNonce wrkNonce : Nonce} {recordId revisionId : U8Array 16}
    {wrkCiphertext password : Bytes}
    {keys : UnlockedKeys} {aeadProfile : AeadProfileId} {bytes : Bytes}
    (hpassword : password ≠ [])
    (hcreate : createSessionKeys platform draws.rootKey draws.wrkNonce password vaultId headerNonce
      aeadProfile canonicalArgon2idV1 (buildAad vaultId formatVersion schemaMeissnerRecordsV2 1 1 0
        recordId revisionId recordKindWrappedRootKey) = .ok (keys, wrkCiphertext, wrkNonce))
    (hbytes : createdVaultBytes platform draws vaultId headerNonce canonicalArgon2idV1 recordId
      revisionId wrkCiphertext wrkNonce
        (buildAad vaultId formatVersion schemaMeissnerRecordsV2 1 1 0
        recordId revisionId recordKindWrappedRootKey) keys.metadataKey = .ok bytes) :
    ∃ v : VaultIdentity platform, v.password = password ∧ v.header.vaultId = vaultId
      ∧ v.header.headerNonce = headerNonce ∧ v.keys = keys ∧ v.wrkFrame.ciphertext = wrkCiphertext
      ∧ v.wrkFrame.nonce = wrkNonce ∧ Stored v TombstoneMap.empty bytes := by
  simp only [createdVaultBytes, bind_eq_ok, okOr_eq_ok, u32TryFrom_eq_some] at hbytes
  obtain ⟨createdAt, -, aead, -, pqc, -, kdf, -, schema, -, headerBytes, hheader, ciphertextLen,
    hciphertextLen, frameBytes, hframe, table, htable, hfile⟩ := hbytes
  -- the identity is read off what was serialized
  let v : VaultIdentity platform :=
    { header := _, headerBytes, wrkFrame := _, wrkBytes := frameBytes, keys, password,
      header_serialized := hheader, wrk_serialized := hframe, wrk_version := rfl,
      wrk_ciphertext := length_of_createSessionKeys hcreate, wrk_aad := rfl,
      password_ne := hpassword,
      keys_derived := by
        have hderive := deriveSessionKeys_of_create hcreate
        obtain ⟨x, rfl⟩ := aead
        obtain ⟨y, rfl⟩ := aeadProfile
        exact hderive }
  refine ⟨v, rfl, rfl, rfl, rfl, rfl, rfl, [], ?_, List.Forall₂.nil⟩
  simp only [serializeVaultFile, lenToU32, lenToU64, bind_eq_ok, okOr_eq_ok, u32TryFrom_eq_some,
    u64TryFrom_eq_some, checkedAdd_eq_some, pure_eq_ok, Except.ok.injEq] at hfile
  obtain ⟨headerLen, hheaderLen, tableLen, htableLen, _, ⟨rfl, -⟩, bodyLen, hbodyLen, prefixBytes,
    hleading, -, -, -, -, -, -, rfl⟩ := hfile
  -- an image of no records: the table is the sealed empty one
  refine ⟨[], [], table, prefixBytes, draws.tableNonce, headerLen, tableLen, bodyLen, rfl, htable,
    hleading, hheaderLen, htableLen, ?_, ?_, List.nodup_nil⟩
  · rw [hbodyLen, List.append_nil, List.length_append]
  · simp only [List.append_nil, List.append_assoc]
    rfl

/-- A `persist_vault` that succeeds has put the vault where nothing was. -/
theorem persistVault_eq_ok {io : IoFaults} {path : Path} {recordId : U8Array 16}
    {vaultBytes : Res Bytes} {fs fs' : Fs}
    (h : persistVault io path recordId vaultBytes fs = (.ok (), fs')) :
    ∃ bytes, vaultBytes = .ok bytes ∧ fs' = fs.set path (some bytes) ∧ fs path = none := by
  rcases createNewFile_cases io.claim path fs with ⟨-, -, hnone, hclaim⟩ | ⟨-, hclaim⟩
  case inr => simp only [persistVault, hclaim, Prod.mk.injEq, reduceCtorEq, false_and] at h
  simp only [persistVault, hclaim, FsM.onError, FsM.bind_apply, FsM.lift] at h
  cases hbytes : vaultBytes with
  | error e =>
      rw [hbytes] at h
      dsimp only at h
      split at h
      · cases h
      · cases h
  | ok bytes =>
      refine ⟨bytes, rfl, ?_, hnone⟩
      simp only [hbytes] at h
      rcases writeTmp_cases io (fs.set path (some [])) (uniqueTmpPath path recordId) bytes with
        ⟨-, hfile, htmpNone, -, -, hwrite⟩ | ⟨-, fs₁, hwrite, -⟩
      case inr => simp only [hwrite, Prod.mk.injEq, reduceCtorEq, false_and] at h
      have htmp := (uniqueTmpPath_apart path recordId hfile).symm
      rw [Fs.set_of_ne _ _ htmp] at htmpNone
      -- the claim is replaced and the temporary name free again, as it was
      have hfs : (((fs.set path (some [])).set (uniqueTmpPath path recordId) (some bytes)).set
          (uniqueTmpPath path recordId) none).set path (some bytes) = fs.set path (some bytes) := by
        funext p
        by_cases hp : p = path
        · simp [Fs.set, hp]
        · by_cases ht : p = uniqueTmpPath path recordId
          · simp [Fs.set, ht, htmp, htmpNone]
          · simp [Fs.set, hp, ht]
      cases hrename : io.rename with
      | true => simp only [hwrite, renameFile, hrename, Prod.mk.injEq, reduceCtorEq, false_and] at h
      | false =>
          simp only [hwrite, renameFile, hrename, Fs.set_self, hfs, fsyncParent, FsM.bind_apply,
            syncCall] at h
          cases hopen : io.parentOpen with
          | true =>
              simp only [hopen, if_true, Prod.mk.injEq, reduceCtorEq, false_and] at h
          | false =>
              cases hsync : io.parentSync with
              | true =>
                  simp only [hopen, hsync, Bool.false_eq_true, if_false, if_true, Prod.mk.injEq,
                    reduceCtorEq, false_and] at h
              | false =>
                  simp only [hopen, hsync, Bool.false_eq_true, if_false, Prod.mk.injEq,
                    true_and] at h
                  exact h.symm

/-- What a successful `create` leaves: a vault under the password, of the
ids and keys it drew, empty, where no file was. -/
theorem stored_of_create {io : IoFaults} {draws : CreateDraws} {path : Path} {password : Bytes}
    {fs fs' : Fs} (h : create platform io draws path password fs = (.ok (), fs')) :
    ∃ (v : VaultIdentity platform) (bytes : Bytes) (recordId revisionId : U8Array 16),
      v.password = password ∧ draws.vaultId = some v.header.vaultId
      ∧ draws.headerNonce = some v.header.headerNonce
      ∧ createSessionKeys platform draws.rootKey draws.wrkNonce password v.header.vaultId
          v.header.headerNonce supportedProfileSet.aeadProfile canonicalArgon2idV1
          (buildAad v.header.vaultId formatVersion schemaMeissnerRecordsV2 1 1 0 recordId revisionId
            recordKindWrappedRootKey) = .ok (v.keys, v.wrkFrame.ciphertext, v.wrkFrame.nonce)
      ∧ Stored v TombstoneMap.empty bytes ∧ fs' = fs.set path (some bytes) ∧ fs path = none := by
  have hstep : ∀ {α β : Type} {x : Res α} {f : α → FsM β} {r : β} {fs fs' : Fs},
      (FsM.lift x >>= f) fs = (.ok r, fs') → ∃ a, x = .ok a ∧ f a fs = (.ok r, fs') := by
    intro α β x f r fs fs' hrun
    cases x with
    | error e => simp only [FsM.bind_apply, FsM.lift, Prod.mk.injEq, reduceCtorEq,
          false_and] at hrun
    | ok a => exact ⟨a, rfl, hrun⟩
  rw [create] at h
  obtain ⟨u, hpassword, h⟩ := hstep h
  obtain ⟨vaultId, hvaultId, h⟩ := hstep h
  obtain ⟨recordId, -, h⟩ := hstep h
  obtain ⟨revisionId, -, h⟩ := hstep h
  obtain ⟨headerNonce, hheaderNonce, h⟩ := hstep h
  obtain ⟨⟨aead, rfl⟩, -, h⟩ := hstep h
  obtain ⟨⟨keys, wrkCiphertext, wrkNonce⟩, hkeys, h⟩ := hstep h
  obtain ⟨bytes, hbytes, hfs, hnone⟩ := persistVault_eq_ok h
  obtain ⟨v, hv, rfl, rfl, rfl, rfl, rfl, hstored⟩ :=
    stored_of_createdVaultBytes (rejectIf_eq_ok.mp hpassword) hkeys hbytes
  exact ⟨v, bytes, recordId, revisionId, hv, okOr_eq_ok.mp hvaultId,
    okOr_eq_ok.mp hheaderNonce, hkeys, hstored, hfs, hnone⟩

/-- The same, with no more said of the identity than its password. -/
theorem create_eq_ok {io : IoFaults} {draws : CreateDraws} {path : Path} {password : Bytes}
    {fs fs' : Fs} (h : create platform io draws path password fs = (.ok (), fs')) :
    ∃ (v : VaultIdentity platform) (bytes : Bytes), v.password = password
      ∧ Stored v TombstoneMap.empty bytes ∧ fs' = fs.set path (some bytes) ∧ fs path = none := by
  obtain ⟨v, bytes, -, -, hv, -, -, -, hstored, hfs, hnone⟩ := stored_of_create h
  exact ⟨v, bytes, hv, hstored, hfs, hnone⟩

/-- What can be written as one TLV is anything whose length fits. -/
theorem exists_writeHeaderTlv {tag : UInt16} {flags : UInt8} {value : Bytes}
    (h : value.length < 2 ^ 32) : ∃ x, writeHeaderTlv tag flags value = .ok x :=
  ⟨_, writeHeaderTlv_eq_ok.mpr ⟨UInt32.ofNat value.length, toNat_u32_ofNat h, rfl⟩⟩

/-- The header `create` builds. -/
def createdHeader (vaultId : U8Array 16) (createdAt : UInt64) (headerNonce : Nonce) :
    VaultHeader where
  vaultId := vaultId
  createdAt := createdAt
  formatVersion := formatVersion
  schemaProfile := schemaMeissnerRecordsV2
  aeadProfile := aeadXchacha20Poly1305V1
  kdfProfile := kdfArgon2idV1
  kdfParams := canonicalArgon2idV1
  pqcProfile := pqcNone
  headerNonce := headerNonce
  profileSet := supportedProfileSet

/-- A header of this version and the supported profiles serializes where
its KDF parameters do. -/
theorem exists_serializeHeader_of_supported {header : VaultHeader} {kdf : Bytes}
    (hformat : header.formatVersion = formatVersion)
    (hschema : header.schemaProfile = schemaMeissnerRecordsV2)
    (haead : header.aeadProfile = aeadXchacha20Poly1305V1)
    (hkdfProfile : header.kdfProfile = kdfArgon2idV1) (hpqc : header.pqcProfile = pqcNone)
    (hparams : header.kdfParams.profileId = kdfArgon2idV1)
    (hkdf : serializeKdfProfileParams header.kdfParams = .ok kdf) :
    ∃ x, serializeHeader header = .ok x := by
  have hkdfLen := length_of_serializeKdfProfileParams hkdf
  obtain ⟨i, hi⟩ : ∃ x, writeHeaderTlv tagVaultId criticalFlag header.vaultId.toList = .ok x :=
    exists_writeHeaderTlv (by simp)
  obtain ⟨c, hc⟩ : ∃ x, writeHeaderTlv tagCreatedAt criticalFlag (leU64 header.createdAt) = .ok x :=
    exists_writeHeaderTlv (by simp)
  obtain ⟨k, hk⟩ : ∃ x, writeHeaderTlv tagKdfProfile criticalFlag kdf = .ok x :=
    exists_writeHeaderTlv (by omega)
  obtain ⟨a, ha⟩ : ∃ x, writeHeaderTlv tagAeadProfile criticalFlag
      (leU16 header.profileSet.aeadProfile.value) = .ok x := exists_writeHeaderTlv (by simp)
  obtain ⟨q, hq⟩ : ∃ x, writeHeaderTlv tagPqcProfile 0
      (leU16 header.profileSet.pqcProfile.value) = .ok x := exists_writeHeaderTlv (by simp)
  obtain ⟨s, hs⟩ : ∃ x, writeHeaderTlv tagSchemaProfile criticalFlag
      (leU16 header.profileSet.schema.value) = .ok x := exists_writeHeaderTlv (by simp)
  obtain ⟨n, hn⟩ : ∃ x, writeHeaderTlv tagHeaderNonce criticalFlag header.headerNonce.toList
      = .ok x := exists_writeHeaderTlv (by simp)
  refine ⟨i ++ c ++ k ++ a ++ q ++ s ++ n, ?_⟩
  simp only [serializeHeader, bind_eq_ok, rejectIf_eq_ok, Decidable.not_not, pure_eq_ok,
    Except.ok.injEq]
  have hset := header.profileSet.eq_supported
  exact ⟨(), hformat, (), by rw [hschema, hset]; rfl, (), by rw [haead, hset]; rfl, (),
    by rw [hkdfProfile, hset]; rfl, (), by rw [hpqc, hset]; rfl, (), by rw [hset]; rfl, (),
    by rw [hkdfProfile, hparams], i, hi, c, hc, kdf, hkdf, k, hk, a, ha, q, hq, s, hs, n, hn, rfl⟩

/-- The header that `create` builds can be written. -/
theorem exists_serializeHeader (vaultId : U8Array 16) (createdAt : UInt64) (headerNonce : Nonce) :
    ∃ x, serializeHeader (createdHeader vaultId createdAt headerNonce) = .ok x := by
  obtain ⟨kdf, hkdf⟩ : ∃ x, serializeKdfProfileParams canonicalArgon2idV1 = .ok x := ⟨_, rfl⟩
  exact exists_serializeHeader_of_supported rfl rfl rfl rfl rfl rfl hkdf

/-- The file of a new vault serializes. -/
theorem exists_createdVaultBytes {draws : CreateDraws} {vaultId : U8Array 16}
    {headerNonce wrkNonce tableNonce : Nonce} {recordId revisionId : U8Array 16}
    {wrkCiphertext : Bytes} {aad : U8Array recordAadLen} {createdAt : UInt64} (metadataKey : Key)
    (hcreatedAt : draws.createdAt = .ok createdAt)
    (htableNonce : draws.tableNonce = some tableNonce)
    (hwrk : wrkCiphertext.length = 48) :
    ∃ bytes, createdVaultBytes platform draws vaultId headerNonce canonicalArgon2idV1 recordId
      revisionId wrkCiphertext wrkNonce aad metadataKey = .ok bytes := by
  obtain ⟨headerBytes, hheader⟩ := exists_serializeHeader vaultId createdAt headerNonce
  -- every length is known, and far below its field
  have hheaderLen := length_of_serializeHeader hheader
  have hctLen : (48 : UInt32).toNat = wrkCiphertext.length := by
    rw [hwrk]
    rfl
  obtain ⟨frameBytes, hframe⟩ : ∃ x, serializeRecordFrame
      ⟨formatVersion, recordId, revisionId, wrkNonce, aad, 48, wrkCiphertext⟩ aad = .ok x :=
    ⟨_, serializeRecordFrame_eq_ok.mpr ⟨hctLen, rfl⟩⟩
  have hframeLen := length_of_serializeRecordFrame hframe
  simp only [frameLenFor, hwrk] at hframeLen
  obtain ⟨table, htable⟩ : ∃ table, serializeSealedRecordTableV2 platform.cipher draws.tableNonce []
      metadataKey vaultId schemaMeissnerRecordsV2 = .ok table :=
    exists_serializeSealedRecordTableV2 _ _ htableNonce (by simp) (Nat.zero_le _)
  have htableLen := length_of_serializeSealedRecordTableV2 htable
  have hpad := paddedTableLen_lt (Nat.zero_le maxRecords)
  have htag : tagLen = 16 := rfl
  rw [List.length_nil, tableSectionLen] at htableLen
  have hsmall : 2 ^ 60 ≤ usizeMax := by decide
  have hmin : headerMinLen = 26 := rfl
  have hleadingLen : (magic ++ leU16 formatVersion ++ leU32 (UInt32.ofNat headerBytes.length)
      ++ leU32 (UInt32.ofNat table.length)
      ++ leU64 (UInt64.ofNat (frameBytes.length + table.length))).length = 26 := by
    simp [length_magic]
  have hfile : ∃ bytes, serializeVaultFile headerBytes table frameBytes = .ok bytes := by
    simp only [serializeVaultFile, lenToU32, lenToU64, bind_eq_ok, okOr_eq_ok, u32TryFrom_eq_some,
      u64TryFrom_eq_some, checkedAdd_eq_some, serializePrefix_eq_ok, pure_eq_ok, Except.ok.injEq]
    refine ⟨_, UInt32.ofNat headerBytes.length, toNat_u32_ofNat (by omega),
      UInt32.ofNat table.length, toNat_u32_ofNat (by omega), _, ⟨rfl, by omega⟩,
      UInt64.ofNat (frameBytes.length + table.length), UInt64.toNat_ofNat_of_lt' ?_, _,
      ⟨trivial, rfl⟩, _, ⟨rfl, ?_⟩, _, ⟨rfl, ?_⟩, _, ⟨rfl, ?_⟩, rfl⟩
    · have hu64 : UInt64.size = 2 ^ 64 := rfl
      omega
    · rw [hleadingLen]
      omega
    · rw [hleadingLen]
      omega
    · rw [hleadingLen]
      omega
  obtain ⟨bytes, hbytes⟩ := hfile
  refine ⟨bytes, ?_⟩
  simp only [createdVaultBytes, bind_eq_ok, okOr_eq_ok, u32TryFrom_eq_some]
  exact ⟨createdAt, hcreatedAt, supportedProfileSet.aeadProfile, rfl,
    supportedProfileSet.pqcProfile, rfl, supportedProfileSet.kdfProfile, rfl,
    supportedProfileSet.schema, rfl, headerBytes, hheader, 48, hctLen, frameBytes, hframe, table,
    htable, hbytes⟩

/-- A `persist_vault` that reaches its rename with nothing
failing behind it. -/
theorem persistVault_of_reachesRename {io : IoFaults} {path : Path} {recordId : U8Array 16}
    {bytes : Bytes} {fs : Fs} (hclaim : io.claim = false) (hnone : fs path = none)
    (hreach : ReachesRename io fs (uniqueTmpPath path recordId)) (hafter : io.afterRename = false) :
    (persistVault io path recordId (.ok bytes) fs).1 = .ok () := by
  obtain ⟨hcreate, hfile, htmpNone, hwriteFault, hsync, hrename⟩ := hreach
  have htmp := (uniqueTmpPath_apart path recordId hfile).symm
  rcases createNewFile_cases io.claim path fs with ⟨-, -, -, hclaimed⟩ | ⟨hnot, -⟩
  case inr => exact absurd ⟨hclaim, (uniqueTmpPath_namesFile_iff.mp hfile).1, hnone⟩ hnot
  rcases writeTmp_cases io (fs.set path (some [])) (uniqueTmpPath path recordId) bytes with
    ⟨-, -, -, -, -, hwrite⟩ | ⟨hnot, -⟩
  case inr =>
      refine absurd ⟨hcreate, hfile, ?_, hwriteFault, hsync⟩ hnot
      rw [Fs.set_of_ne _ _ htmp, htmpNone]
  simp only [IoFaults.afterRename, Bool.or_eq_false_iff] at hafter
  simp only [persistVault, hclaimed, FsM.onError, FsM.bind_apply, FsM.lift,
    hwrite, renameFile, hrename, Fs.set_self, fsyncParent, syncCall, hafter.1, hafter.2,
    Bool.false_eq_true, if_false]

/-- The values one `create` draws, all drawn. -/
structure CreateDraws.Drawn (draws : CreateDraws) : Prop where
  vaultId : draws.vaultId.isSome
  recordId : draws.recordId.isSome
  revisionId : draws.revisionId.isSome
  headerNonce : draws.headerNonce.isSome
  rootKey : draws.rootKey.isSome
  wrkNonce : draws.wrkNonce.isSome
  tableNonce : draws.tableNonce.isSome
  createdAt : draws.createdAt.isOk

/-- `create` succeeds, where no file is, when nothing fails. -/
theorem exists_create {io : IoFaults} {draws : CreateDraws} {path : Path} {password : Bytes}
    {fs : Fs} (htotal : platform.kdf.Total) (hdraws : draws.Drawn) (hpassword : password ≠ [])
    (hclaim : io.claim = false) (hnone : fs path = none)
    (hreach : ∀ recordId, draws.recordId = some recordId →
      ReachesRename io fs (uniqueTmpPath path recordId))
    (hafter : io.afterRename = false) :
    ∃ fs', create platform io draws path password fs = (.ok (), fs') := by
  obtain ⟨vaultId, hvaultId⟩ := Option.isSome_iff_exists.mp hdraws.vaultId
  obtain ⟨recordId, hrecordId⟩ := Option.isSome_iff_exists.mp hdraws.recordId
  obtain ⟨revisionId, hrevisionId⟩ := Option.isSome_iff_exists.mp hdraws.revisionId
  obtain ⟨headerNonce, hheaderNonce⟩ := Option.isSome_iff_exists.mp hdraws.headerNonce
  obtain ⟨rootKey, hrootKey⟩ := Option.isSome_iff_exists.mp hdraws.rootKey
  obtain ⟨wrkNonce, hwrkNonce⟩ := Option.isSome_iff_exists.mp hdraws.wrkNonce
  obtain ⟨tableNonce, htableNonce⟩ := Option.isSome_iff_exists.mp hdraws.tableNonce
  obtain ⟨createdAt, hcreatedAt⟩ : ∃ createdAt, draws.createdAt = .ok createdAt := by
    have hok := hdraws.createdAt
    cases hcreated : draws.createdAt with
    | error e =>
        rw [hcreated] at hok
        cases hok
    | ok createdAt => exact ⟨createdAt, rfl⟩
  -- the derivations are total, and the vault is small enough to be written
  obtain ⟨keys, ciphertext, hkeys⟩ : ∃ keys ciphertext, createSessionKeys platform (some rootKey)
      (some wrkNonce) password vaultId headerNonce supportedProfileSet.aeadProfile
      canonicalArgon2idV1 (buildAad vaultId formatVersion schemaMeissnerRecordsV2 1 1 0 recordId
        revisionId recordKindWrappedRootKey) = .ok (keys, ciphertext, wrkNonce) :=
    exists_createSessionKeys _ htotal hpassword rfl rfl (by decide)
  obtain ⟨bytes, hbytes⟩ : ∃ bytes, createdVaultBytes platform draws vaultId headerNonce
      canonicalArgon2idV1 recordId revisionId ciphertext wrkNonce (buildAad vaultId formatVersion
        schemaMeissnerRecordsV2 1 1 0 recordId revisionId recordKindWrappedRootKey)
      keys.metadataKey = .ok bytes :=
    exists_createdVaultBytes _ hcreatedAt htableNonce (length_of_createSessionKeys hkeys)
  have haead : AeadProfileId.new aeadXchacha20Poly1305V1
    = .ok supportedProfileSet.aeadProfile := rfl
  have hpersist : (persistVault io path recordId (.ok bytes) fs).1 = .ok () :=
    persistVault_of_reachesRename hclaim hnone (hreach recordId hrecordId) hafter
  refine ⟨(persistVault io path recordId (.ok bytes) fs).2, ?_⟩
  rw [← hpersist]
  simp only [create, FsM.bind_apply, FsM.lift, rejectIf_neg _ hpassword, hvaultId, hrecordId,
    hrevisionId, hheaderNonce, hrootKey, hwrkNonce, okOr_some, haead, hkeys, hbytes]

-- ================================================================ unlock

/-- The profile fields of a header repeat its profile set. -/
theorem VaultIdentity.profiles_eq (v : VaultIdentity platform) :
    v.header.profileSet.schema.value = v.header.schemaProfile
      ∧ v.header.profileSet.aeadProfile.value = v.header.aeadProfile
      ∧ v.header.profileSet.kdfProfile.value = v.header.kdfProfile
      ∧ v.header.profileSet.pqcProfile.value = v.header.pqcProfile := by
  have hheader := v.header_serialized
  simp only [serializeHeader, bind_eq_ok, rejectIf_eq_ok, Decidable.not_not] at hheader
  obtain ⟨-, -, -, hschema, -, haead, -, hkdf, -, hpqc, -⟩ := hheader
  exact ⟨hschema.symm, haead.symm, hkdf.symm, hpqc.symm⟩

/-- A stored file under the ceiling passes the checks on the untrusted file. -/
theorem Stored.parseAndValidate_eq {v : VaultIdentity platform} {m : ItemMap} {bytes : Bytes}
    (h : Stored v m bytes) (hle : ¬ bytes.length > maxVaultFileLen) :
    ∃ tableLen : UInt32,
      UntrustedVaultFile.parseAndValidate bytes = .ok ⟨bytes, v.header, tableLen.toNat, 173, 196⟩
      ∧ ∃ entries, openSealedRecordTableV2 platform.cipher bytes tableOffset tableLen.toNat
          v.keys.metadataKey v.header.vaultId v.header.schemaProfile tableOffset bytes.length
          = .ok entries := by
  obtain ⟨records, himage, -⟩ := h
  obtain ⟨entries, tableLen, hheader, htableLen, h10, h14, hheaderSeg, hwrkSeg, hopen, -, -, hmax,
    -, -⟩ := himage.parts
  -- the two lengths of the prefix that are read once more
  have hfield : ∀ {off : Nat} {n : UInt32} {outOfBounds readError : String},
      SegAt bytes off (leU32 n) →
      readPrefixField bytes off outOfBounds readError = .ok n.toNat := by
    intro off n outOfBounds readError hseg
    simp only [readPrefixField, bind_eq_ok, okOr_eq_ok, slice?_eq_some_iff, readArray_eq_ok,
      pure_eq_ok, Except.ok.injEq]
    exact ⟨leU32 n, ⟨hseg, by simp⟩, arrayLE32 n, rfl, by rw [u32OfLE_arrayLE32]⟩
  have hwrkLen : recordFrameLenAt bytes 173 = .ok 196 :=
    recordFrameLenAt_of_segAt v.wrk_serialized hwrkSeg hmax (by rw [v.length_wrkBytes]; rfl)
  have hwrkLe := hwrkSeg.le
  have hmin : headerMinLen = 26 := rfl
  refine ⟨tableLen, ?_, entries, hopen⟩
  simp only [UntrustedVaultFile.parseAndValidate, bind_eq_ok, rejectIf_eq_ok, okOr_eq_ok,
    checkedAdd_eq_some, pure_eq_ok, Except.ok.injEq]
  exact ⟨(), hle, v.header, hheader, (), by omega, 147, hfield h10, tableLen.toNat, hfield h14, 173,
    ⟨rfl, by decide⟩, 196, hwrkLen, rfl⟩

/-- The length check is the only one of `unlock`'s that a stored
file can fail. -/
theorem Stored.unlockBytes_eq {v : VaultIdentity platform} {m : ItemMap} {bytes : Bytes}
    (h : Stored v m bytes) (path : Path) :
    unlockBytes platform path v.password bytes
      = if bytes.length > maxVaultFileLen then
          .error (formatError "vault file exceeds maximum length")
        else .ok (v.session path) := by
  -- the ceiling is checked before anything is parsed
  by_cases hle : bytes.length > maxVaultFileLen
  · rw [if_pos hle, unlockBytes, UntrustedVaultFile.parseAndValidate, rejectIf_pos _ hle]
    rfl
  · rw [if_neg hle]
    obtain ⟨tableLen, hparse, entries, hopen⟩ := h.parseAndValidate_eq hle
    obtain ⟨records, himage, -⟩ := h
    obtain ⟨-, -, -, -, -, -, -, hwrkSeg, -, -, -, hmax, -, -⟩ := himage.parts
    obtain ⟨tail, htail, htailLen, hhead⟩ := hwrkSeg.exists_tail
    have hwrkLen := v.length_wrkBytes
    have hslice : slice? bytes 173 bytes.length = some tail :=
      slice?_eq_some_iff.mpr ⟨htail, htailLen⟩
    -- the WRK frame stands behind the header, and its AAD is the one derived
    have hframe : parseRecordFrame tail 196 v.header.aeadProfile = .ok v.wrkFrame := by
      rw [v.profiles.2.2]
      exact parseRecordFrame_of_segAt v.wrk_serialized v.wrk_version
        (by rw [v.wrk_ciphertext]; decide) hhead (by rw [hwrkLen]; rfl)
    obtain ⟨hschema, haead, hkdf, hpqc⟩ := v.profiles_eq
    have hend : checkedAdd 173 (196 : UInt32).toNat = some tableOffset := by decide
    have haad : validateStoredRecordAad v.wrkFrame.storedAad.toList v.wrkFrame.storedAad
        = .ok () := by
      simp only [validateStoredRecordAad, bind_eq_ok, rejectIf_eq_ok, Decidable.not_not]
      exact ⟨(), List.Vector.toList_length _, trivial⟩
    have hkeys := v.keys_derived
    simp only [unlockBytes, hparse, ok_bind, hslice, okOr_some, hschema, haead, hkdf, hpqc, hframe,
      ← v.wrk_aad, haad, hkeys, hend, hopen, pure_eq_ok]
    rfl

/-- `unlock` with the creation password. -/
theorem Stored.unlock_eq {v : VaultIdentity platform} {m : ItemMap} {bytes : Bytes} {fs : Fs}
    {path : Path} (h : Stored v m bytes) (hfs : fs path = some bytes) (io : IoFaults)
    (hread : io.read = false) :
    unlock platform io path v.password fs
      = (if storedLen m ≤ maxVaultFileLen then .ok (v.session path)
          else .error (formatError "vault file exceeds maximum length"), fs) := by
  simp only [unlock, FsM.bind_apply, FsM.lift, rejectIf_neg _ v.password_ne, readFile_of_some hfs,
    hread, Bool.false_eq_true, if_false, h.unlockBytes_eq path, h.length_eq]
  by_cases hle : storedLen m ≤ maxVaultFileLen
  · rw [if_neg (not_lt.mpr hle), if_pos hle]
  · rw [if_pos (not_le.mp hle), if_neg hle]

/-- A session that `unlock` issues with the creation password
is the vault's. -/
theorem Stored.of_unlock {v : VaultIdentity platform} {m : ItemMap} {bytes : Bytes} {fs fs' : Fs}
    {path : Path} {io : IoFaults} {session : UnlockedVault} (h : Stored v m bytes)
    (hfs : fs path = some bytes)
    (hunlock : unlock platform io path v.password fs = (.ok session, fs')) :
    session = v.session path ∧ fs' = fs := by
  cases hread : io.read with
  | true =>
      simp only [unlock, FsM.bind_apply, FsM.lift, rejectIf_neg _ v.password_ne, readFile, hread,
        if_true, Prod.mk.injEq, reduceCtorEq, false_and] at hunlock
  | false =>
      rw [h.unlock_eq hfs io hread, Prod.mk.injEq] at hunlock
      obtain ⟨hsession, rfl⟩ := hunlock
      split at hsession
      · rw [Except.ok.injEq] at hsession
        exact ⟨hsession.symm, rfl⟩
      · cases hsession

end MeissnerSeal
