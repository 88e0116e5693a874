/-
What an accepted header is, and when it is the one the writer makes.

# Soundness

The TLVs of an accepted header tile the bytes its prefix declares, and
there is one list of them (`TilesHeader.unique`). Each field is the value
of the one TLV at its tag (`HeaderReads`). The duplicate tracker keeps
known tags only, so a tag the parser does not know may occur again
(`header_sound_iff`).

# The writer's header

The writer's header parses back whatever table and body follow it
(`header_roundtrip`). The reader does not look at the order of the TLVs,
at the flags of a known tag, or at the order of the KDF parameters; where
all of these are the writer's, the header is (`header_reproduced_iff`).
-/
import MeissnerSeal.Vault.HeaderTlvs
import Mathlib.Algebra.GroupWithZero.Nat

namespace MeissnerSeal

open ByteCodec ExceptRules TlvList

-- ============================================================= round trip

/-- A file is its sections behind a prefix that counts them. -/
theorem serializeVaultFile_eq_ok {header recordTable body out : Bytes} :
    serializeVaultFile header recordTable body = .ok out
      ↔ ∃ (headerLen tableLen : UInt32) (bodyLen : UInt64) (leading : Bytes),
        headerLen.toNat = header.length ∧ tableLen.toNat = recordTable.length
          ∧ bodyLen.toNat = body.length + recordTable.length
          ∧ serializePrefix formatVersion headerLen tableLen bodyLen = .ok leading
          ∧ headerMinLen + header.length + body.length + recordTable.length ≤ usizeMax
          ∧ out = leading ++ (header ++ (body ++ recordTable)) := by
  simp only [serializeVaultFile, lenToU32, lenToU64, bind_eq_ok, okOr_eq_ok, u32TryFrom_eq_some,
    u64TryFrom_eq_some, checkedAdd_eq_some, pure_eq_ok, Except.ok.injEq]
  constructor
  · rintro ⟨headerLen, hheaderLen, tableLen, htableLen, _, ⟨rfl, -⟩, bodyLen, hbodyLen, leading,
      hleading, _, ⟨rfl, -⟩, _, ⟨rfl, -⟩, _, ⟨rfl, hmax⟩, rfl⟩
    obtain ⟨hleadingLen, -⟩ := segAt_front [] hleading
    rw [hleadingLen] at hmax
    refine ⟨headerLen, tableLen, bodyLen, leading, hheaderLen, htableLen, hbodyLen,
      hleading, hmax, ?_⟩
    rw [List.append_assoc, List.append_assoc]
  · rintro ⟨headerLen, tableLen, bodyLen, leading, hheaderLen, htableLen, hbodyLen, hleading, hmax,
      rfl⟩
    obtain ⟨hleadingLen, -⟩ := segAt_front [] hleading
    refine ⟨headerLen, hheaderLen, tableLen, htableLen, _, ⟨rfl, by omega⟩, bodyLen,
      hbodyLen, leading, hleading, _, ⟨rfl, by omega⟩, _, ⟨rfl, by omega⟩, _, ⟨rfl, by omega⟩, ?_⟩
    rw [List.append_assoc, List.append_assoc]

-- ================================================================== tiling

/-- The header bytes of a file: as many as its prefix declares, behind it. -/
def HeaderBytes (bytes x : Bytes) : Prop :=
  ∃ headerLen : UInt32, SegAt bytes prefixHeaderLenOffset (leU32 headerLen)
    ∧ headerLen.toNat = x.length ∧ SegAt bytes headerMinLen x

/-- The TLVs tile the header bytes. -/
def TilesHeader (bytes : Bytes) (tlvs : List HeaderTlv) : Prop :=
  ∃ x, HeaderBytes bytes x ∧ writeList HeaderTlv.write tlvs = .ok x

theorem HeaderBytes.unique {bytes x x' : Bytes} (h : HeaderBytes bytes x)
    (h' : HeaderBytes bytes x') :
    x = x' := by
  obtain ⟨headerLen, hdeclared, hlen, hx⟩ := h
  obtain ⟨headerLen', hdeclared', hlen', hx'⟩ := h'
  have hsame : headerLen = headerLen' := leU32_inj (hdeclared.unique hdeclared' rfl)
  refine hx.unique hx' ?_
  rw [← hlen, ← hlen', hsame]

theorem TilesHeader.unique {bytes : Bytes} {tlvs tlvs' : List HeaderTlv}
    (h : TilesHeader bytes tlvs)
    (h' : TilesHeader bytes tlvs') : tlvs = tlvs' := by
  obtain ⟨x, hx, hwrite⟩ := h
  obtain ⟨x', hx', hwrite'⟩ := h'
  rw [hx'.unique hx] at hwrite'
  exact writeList_injective HeaderTlv.selfDelimiting hwrite hwrite'

-- =============================================================== soundness

/-- What a header says, read off its TLVs: they tile it, the file is as long
as it declares, no TLV is unknown and critical, and each field is the
value of the one TLV at its tag. -/
structure HeaderReads (bytes : Bytes) (header : VaultHeader) (tlvs : List HeaderTlv) : Prop where
  tiles : TilesHeader bytes tlvs
  length : ∃ (headerLen : UInt32) (bodyLen : UInt64),
    SegAt bytes prefixHeaderLenOffset (leU32 headerLen)
      ∧ SegAt bytes prefixBodyLenOffset (leU64 bodyLen)
      ∧ bytes.length = headerMinLen + headerLen.toNat + bodyLen.toNat
  critical : ∀ tlv ∈ tlvs, tlv.tag ∉ knownHeaderTags → tlv.flags &&& criticalFlag = 0
  formatVersion : SegAt bytes prefixFormatVersionOffset (leU16 header.formatVersion)
  vaultId : headerValues tlvs tagVaultId = [header.vaultId.toList]
  createdAt : headerValues tlvs tagCreatedAt = [leU64 header.createdAt]
  kdfProfile : header.kdfProfile = header.kdfParams.profileId
  kdfParams : ∃ value kdfTlvs, headerValues tlvs tagKdfProfile = [value]
    ∧ KdfBlock value header.kdfParams kdfTlvs
  aeadProfile : headerValues tlvs tagAeadProfile = [leU16 header.aeadProfile]
  pqcProfile : headerValues tlvs tagPqcProfile = [leU16 header.pqcProfile]
    ∨ headerValues tlvs tagPqcProfile = [] ∧ header.pqcProfile = pqcNone
  schemaProfile : headerValues tlvs tagSchemaProfile = [leU16 header.schemaProfile]
  headerNonce : headerValues tlvs tagHeaderNonce = [header.headerNonce.toList]

/-- And no tag occurs twice. -/
structure HeaderSound (bytes : Bytes) (header : VaultHeader) (tlvs : List HeaderTlv) : Prop extends
    HeaderReads bytes header tlvs where
  singleton : (tlvs.map HeaderTlv.tag).Nodup

/-- No tag the parser does not know occurs twice. -/
def UnknownTagsSingle (bytes : Bytes) : Prop :=
  ∀ tlvs, TilesHeader bytes tlvs →
    ((tlvs.map HeaderTlv.tag).filter fun tag => tag ∉ knownHeaderTags).Nodup

/-- The parser compares the length of the file with what it could add up. -/
theorem le_usizeMax_of_parseHeader {bytes : Bytes} {header : VaultHeader}
    (h : parseHeader bytes = .ok header) : bytes.length ≤ usizeMax := by
  simp only [parseHeader, bind_eq_ok, rejectIf_eq_ok, okOr_eq_ok, checkedAdd_eq_some] at h
  obtain ⟨-, -, _, -, -, -, version, -, -, -, headerLen, -, tableLen, -, bodyLen, -, h⟩ := h
  obtain ⟨_, ⟨rfl, -⟩, -, -, _, ⟨rfl, hmax⟩, -, -, loop, -, -, hend, -⟩ := h
  simp only [not_or, Decidable.not_not] at hend
  rw [← hend.2]
  exact hmax

theorem headerReads_of_parse {bytes : Bytes} {header : VaultHeader}
    (h : parseHeader bytes = .ok header) : ∃ tlvs, HeaderReads bytes header tlvs := by
  obtain ⟨headerLen, tableLen, bodyLen, leading, x, fields, hleading, hseg, hlen, hfile, -, hwalk,
    hfill⟩ := (parseHeader_eq_ok (le_usizeMax_of_parseHeader h)).mp h
  obtain ⟨tlvs, hwrite, happly⟩ := tlvSection_iff.mp hwalk
  obtain ⟨hstated, hcritical⟩ := @applyHeaderTlvs_stated [] tlvs _ _ HeaderFields.says_init happly
  rw [List.nil_append] at hstated
  obtain ⟨hleadingLen, -, hversion, hheaderLen, -, hbodyLen, -⟩ := segAt_front [] hleading
  rw [List.append_nil] at hversion hheaderLen hbodyLen
  rw [segAt_append, hleadingLen, Nat.zero_add] at hseg
  have hat : ∀ {off : Nat} {y : Bytes}, SegAt leading off y → SegAt bytes off y := by
    intro off y hy
    have hinner := hseg.1.trans hy
    rwa [Nat.zero_add] at hinner
  refine ⟨tlvs, ⟨⟨x, ⟨headerLen, hat hheaderLen, hlen, hseg.2⟩, hwrite⟩,
    ⟨headerLen, bodyLen, hat hheaderLen, hat hbodyLen, hfile⟩, hcritical,
    ?_, ?_, ?_, ?_, ?_, ?_, ?_, ?_, ?_⟩⟩
  · rw [hfill.supported.1]
    exact hat hversion
  · rw [hstated.vaultId, hfill.vaultId]
    rfl
  · rw [hstated.createdAt, hfill.createdAt]
    rfl
  · have hprofile := hstated.kdfProfile
    rw [hfill.kdfProfile, hfill.kdfParams, Option.map_some, Option.some.injEq] at hprofile
    exact hprofile
  · have hparams := hstated.kdfParams
    rw [hfill.kdfParams, Option.toList_some] at hparams
    obtain ⟨value, rest, hparse, hrest, hvalue⟩ := List.forall₂_cons_right_iff.mp hparams
    rw [List.forall₂_nil_right_iff] at hrest
    obtain ⟨kdfTlvs, hblock⟩ := kdfBlock_of_parse hparse
    rw [hrest] at hvalue
    exact ⟨value, kdfTlvs, hvalue, hblock⟩
  · rw [hstated.aeadProfile, hfill.aeadProfile]
    rfl
  · rw [← hfill.pqcProfile]
    exact hstated.pqcProfile
  · rw [hstated.schemaProfile, hfill.schemaProfile]
    rfl
  · rw [hstated.headerNonce, hfill.headerNonce]
    rfl

theorem HeaderReads.length_le_one {bytes : Bytes} {header : VaultHeader} {tlvs : List HeaderTlv}
    (h : HeaderReads bytes header tlvs) :
    ∀ tag ∈ knownHeaderTags, (headerValues tlvs tag).length ≤ 1 := by
  intro tag htag
  simp only [knownHeaderTags, List.mem_cons, List.not_mem_nil, or_false] at htag
  rcases htag with rfl | rfl | rfl | rfl | rfl | rfl | rfl
  · rw [h.vaultId, List.length_singleton]
  · rw [h.createdAt, List.length_singleton]
  · obtain ⟨value, -, hvalue, -⟩ := h.kdfParams
    rw [hvalue, List.length_singleton]
  · rw [h.aeadProfile, List.length_singleton]
  · rcases h.pqcProfile with hvalue | ⟨hnone, -⟩
    · rw [hvalue, List.length_singleton]
    · rw [hnone, List.length_nil]
      exact Nat.zero_le 1
  · rw [h.schemaProfile, List.length_singleton]
  · rw [h.headerNonce, List.length_singleton]

-- ======================================================= the writer's header

/-- The TLVs the writer writes. -/
def writtenHeaderTlvs (header : VaultHeader) (kdfValue : Bytes) : List HeaderTlv :=
  [⟨tagVaultId, criticalFlag, header.vaultId.toList⟩,
    ⟨tagCreatedAt, criticalFlag, leU64 header.createdAt⟩,
    ⟨tagKdfProfile, criticalFlag, kdfValue⟩,
    ⟨tagAeadProfile, criticalFlag, leU16 header.aeadProfile⟩,
    ⟨tagPqcProfile, 0, leU16 header.pqcProfile⟩,
    ⟨tagSchemaProfile, criticalFlag, leU16 header.schemaProfile⟩,
    ⟨tagHeaderNonce, criticalFlag, header.headerNonce.toList⟩]

/-- The tags and flags of the writer, in its order. -/
def writtenHeads : List (UInt16 × UInt8) :=
  [(tagVaultId, criticalFlag), (tagCreatedAt, criticalFlag), (tagKdfProfile, criticalFlag),
    (tagAeadProfile, criticalFlag), (tagPqcProfile, 0), (tagSchemaProfile, criticalFlag),
    (tagHeaderNonce, criticalFlag)]

/-- The seven TLVs in the writer's order, with its flags, and the KDF
parameters in theirs. -/
def CanonicalTlvs (tlvs : List HeaderTlv) : Prop :=
  tlvs.map (fun tlv => (tlv.tag, tlv.flags)) = writtenHeads
    ∧ ∀ tlv ∈ tlvs, tlv.tag = tagKdfProfile →
      ∃ kdfTlvs, KdfTiles tlv.value kdfTlvs ∧ kdfTlvs.map KdfTlv.tag = kdfParamTags

theorem serializeHeader_eq_ok {header : VaultHeader} {x : Bytes} :
    serializeHeader header = .ok x
      ↔ (header.formatVersion = formatVersion ∧ header.schemaProfile = schemaMeissnerRecordsV2
          ∧ header.aeadProfile = aeadXchacha20Poly1305V1 ∧ header.kdfProfile = kdfArgon2idV1
          ∧ header.pqcProfile = pqcNone)
        ∧ header.kdfProfile = header.kdfParams.profileId
        ∧ ∃ kdfValue, serializeKdfProfileParams header.kdfParams = .ok kdfValue
          ∧ writeList HeaderTlv.write (writtenHeaderTlvs header kdfValue) = .ok x := by
  have hset := header.profileSet.eq_supported
  simp only [serializeHeader, bind_eq_ok, rejectIf_eq_ok, pure_eq_ok, Except.ok.injEq,
    Decidable.not_not, hset, supportedProfileSet, writtenHeaderTlvs, writeList_cons_eq_ok,
    HeaderTlv.write]
  constructor
  · rintro ⟨-, hversion, -, hschema, -, haead, -, hkdfProfile, -, hpqc, -, -, -,
      hkdfId, i, hi, c, hc, kdfValue, hkdf, k, hk, a, ha, q, hq, s, hs, n, hn, rfl⟩
    refine ⟨⟨hversion, hschema, haead, hkdfProfile, hpqc⟩, hkdfId, kdfValue, hkdf, ?_⟩
    rw [hschema, haead, hpqc]
    refine ⟨i, _, hi,
      ⟨c, _, hc, ⟨k, _, hk, ⟨a, _, ha, ⟨q, _, hq, ⟨s, _, hs, ⟨n, [], hn, rfl, rfl⟩, rfl⟩, rfl⟩,
        rfl⟩, rfl⟩, rfl⟩, ?_⟩
    simp only [List.append_nil, List.append_assoc]
  · rintro ⟨⟨hversion, hschema, haead, hkdfProfile, hpqc⟩, hkdfId, kdfValue, hkdf, h⟩
    rw [hschema, haead, hpqc] at h
    obtain ⟨i, _, hi, ⟨c, _, hc, ⟨k, _, hk, ⟨a, _, ha, h⟩, rfl⟩, rfl⟩, rfl⟩ := h
    obtain ⟨⟨q, _, hq, ⟨s, _, hs, ⟨n, _, hn, hnil, rfl⟩, rfl⟩, rfl⟩, rfl⟩ := h
    rw [writeList, Except.ok.injEq] at hnil
    subst hnil
    refine ⟨(), hversion, (), hschema, (), haead, (), hkdfProfile, (), hpqc, (),
      trivial, (), hkdfId, i, hi, c, hc, kdfValue, hkdf, k, hk, a, ha, q, hq, s, hs, n, hn, ?_⟩
    simp only [List.append_nil, List.append_assoc]

/-- The TLVs of a header in the writer's order and flags are the writer's. -/
theorem HeaderReads.eq_written {bytes : Bytes} {header : VaultHeader} {tlvs : List HeaderTlv}
    {value : Bytes} (h : HeaderReads bytes header tlvs)
    (hheads : tlvs.map (fun tlv => (tlv.tag, tlv.flags)) = writtenHeads)
    (hvalue : headerValues tlvs tagKdfProfile = [value]) :
    tlvs = writtenHeaderTlvs header value := by
  have htags : tlvs.map HeaderTlv.tag = knownHeaderTags := by
    have hfirst := congrArg (List.map Prod.fst) hheads
    rwa [List.map_map] at hfirst
  refine @eq_of_values _ _ _ _ _ HeaderTlv.tag HeaderTlv.value (fun tlv => (tlv.tag, tlv.flags))
    ?_ ?_ tlvs _ hheads ?_ ?_
  · rintro ⟨tag, flags, value⟩ ⟨tag', flags', value'⟩ hhead hvalue
    obtain ⟨htag, hflags⟩ := Prod.mk.inj hhead
    rw [HeaderTlv.mk.injEq]
    exact ⟨htag, hflags, hvalue⟩
  · intro tlv tlv' hhead
    exact congrArg Prod.fst hhead
  · rw [htags]
    decide
  · have hpqc : headerValues tlvs tagPqcProfile = [leU16 header.pqcProfile] := by
      refine h.pqcProfile.resolve_right fun ⟨hnone, _⟩ => ?_
      rw [headerValues, valuesOf_eq_nil, htags] at hnone
      exact hnone (by decide)
    intro tag htag
    rw [htags] at htag
    simp only [knownHeaderTags, List.mem_cons, List.not_mem_nil, or_false] at htag
    rcases htag with rfl | rfl | rfl | rfl | rfl | rfl | rfl
    · exact h.vaultId
    · exact h.createdAt
    · exact hvalue
    · exact h.aeadProfile
    · exact hpqc
    · exact h.schemaProfile
    · exact h.headerNonce

theorem HeaderReads.reproduced_iff {bytes : Bytes} {header : VaultHeader} {tlvs : List HeaderTlv}
    (h : HeaderReads bytes header tlvs)
    (hsupported : header.formatVersion = MeissnerSeal.formatVersion
      ∧ header.schemaProfile = schemaMeissnerRecordsV2
      ∧ header.aeadProfile = aeadXchacha20Poly1305V1
      ∧ header.kdfProfile = kdfArgon2idV1 ∧ header.pqcProfile = pqcNone) :
    (∃ x, HeaderBytes bytes x ∧ serializeHeader header = .ok x) ↔ CanonicalTlvs tlvs := by
  obtain ⟨y, hy, hwrite⟩ := h.tiles
  obtain ⟨value, kdfTlvs, hvalue, hblock⟩ := h.kdfParams
  constructor
  · rintro ⟨x, hx, hserialize⟩
    obtain ⟨-, -, kdfValue, hkdf, hwritten⟩ := serializeHeader_eq_ok.mp hserialize
    rw [hx.unique hy] at hwritten
    rw [writeList_injective HeaderTlv.selfDelimiting hwrite hwritten] at hvalue ⊢
    refine ⟨rfl, fun tlv htlv htag => ?_⟩
    -- the one KDF TLV is the writer's
    have hmem : tlv.value ∈ headerValues (writtenHeaderTlvs header kdfValue) tagKdfProfile :=
      mem_valuesOf.mpr ⟨tlv, htlv, htag, rfl⟩
    have hwrittenValue : headerValues (writtenHeaderTlvs header kdfValue) tagKdfProfile
      = [kdfValue] :=
      rfl
    rw [hwrittenValue, List.cons.injEq] at hvalue
    rw [hwrittenValue, List.mem_singleton, hvalue.1] at hmem
    rw [hvalue.1] at hkdf
    rw [hmem]
    exact ⟨kdfTlvs, hblock.kdfTiles, hblock.written_iff.mp hkdf⟩
  · rintro ⟨hheads, hkdfOrder⟩
    obtain ⟨tlv, htlv, htag, htlvValue⟩ :=
      mem_valuesOf.mp (hvalue ▸ List.mem_singleton_self value : value
        ∈ headerValues tlvs tagKdfProfile)
    obtain ⟨kdfTlvs', htiles, hordered⟩ := hkdfOrder tlv htlv htag
    rw [htlvValue] at htiles
    rw [htiles.unique hblock.kdfTiles] at hordered
    refine ⟨y, hy, serializeHeader_eq_ok.mpr ⟨hsupported, h.kdfProfile, value,
      hblock.written_iff.mpr hordered, ?_⟩⟩
    rw [← h.eq_written hheads hvalue]
    exact hwrite

-- ============================================================ sample headers

/-- A file of these header TLVs and nothing else. -/
def headerFile (tlvs : List HeaderTlv) : Res Bytes := do
  let headerBytes ← writeList HeaderTlv.write tlvs
  serializeVaultFile headerBytes [] []

theorem exists_writeHeaderTlvs {tlvs : List HeaderTlv}
    (h : ∀ tlv ∈ tlvs, tlv.value.length < 2 ^ 32) :
    ∃ x, writeList HeaderTlv.write tlvs = .ok x
      ∧ x.length = (tlvs.map fun tlv => tlvHeaderLen + tlv.value.length).sum := by
  induction tlvs with
  | nil => exact ⟨[], rfl, rfl⟩
  | cons tlv tlvs ih =>
      obtain ⟨rest, hrest, hlen⟩ := ih fun other hother => h other (List.mem_cons_of_mem _ hother)
      have hfits := toNat_u32_ofNat (h tlv List.mem_cons_self)
      obtain ⟨y, hfirst⟩ : ∃ y, writeHeaderTlv tlv.tag tlv.flags tlv.value = .ok y :=
        ⟨_, writeHeaderTlv_eq_ok.mpr ⟨UInt32.ofNat tlv.value.length, hfits, rfl⟩⟩
      refine ⟨y ++ rest, writeList_cons_eq_ok.mpr ⟨y, rest, hfirst, hrest, rfl⟩, ?_⟩
      rw [List.length_append, length_of_writeHeaderTlv hfirst, hlen, List.map_cons, List.sum_cons]

theorem exists_headerFile {tlvs : List HeaderTlv} (h : ∀ tlv ∈ tlvs, tlv.value.length < 2 ^ 32)
    (hlen : (tlvs.map fun tlv => tlvHeaderLen + tlv.value.length).sum < 2 ^ 32) :
    ∃ bytes, headerFile tlvs = .ok bytes := by
  have husize : usizeMax = 2 ^ 64 - 1 := rfl
  have hmin : headerMinLen = 26 := rfl
  obtain ⟨x, hwrite, hx⟩ := exists_writeHeaderTlvs h
  rw [headerFile, hwrite, ok_bind]
  refine ⟨_, serializeVaultFile_eq_ok.mpr ⟨UInt32.ofNat x.length, 0, 0, _,
    toNat_u32_ofNat (by omega), rfl, rfl, serializePrefix_eq_ok.mpr ⟨rfl, rfl⟩, ?_, rfl⟩⟩
  rw [List.length_nil]
  omega

theorem parseHeader_of_headerFile {tlvs : List HeaderTlv} {bytes : Bytes} {fields : HeaderFields}
    {header : VaultHeader} (h : headerFile tlvs = .ok bytes)
    (happly : applyHeaderTlvs {} tlvs = .ok fields) (hfill : fields.Fill header) :
    parseHeader bytes = .ok header ∧ TilesHeader bytes tlvs := by
  rw [headerFile, bind_eq_ok] at h
  obtain ⟨x, hwrite, hfile⟩ := h
  obtain ⟨headerLen, tableLen, bodyLen, leading, hheaderLen, htableLen, hbodyLen, hleading, hmax,
    rfl⟩ := serializeVaultFile_eq_ok.mp hfile
  obtain ⟨hleadingLen, -, -, hdeclared, -, -, hrest⟩ := segAt_front (x ++ ([] ++ [])) hleading
  have hlength : (leading ++ (x ++ ([] ++ []))).length = headerMinLen + x.length := by
    rw [List.append_nil, List.append_nil, List.length_append, hleadingLen]
  rw [List.length_nil] at htableLen hbodyLen hmax
  rw [List.append_nil, List.append_nil] at hlength hrest hdeclared ⊢
  refine ⟨(parseHeader_eq_ok (by omega)).mpr ⟨headerLen, tableLen, bodyLen, leading, x, fields,
    hleading, segAt_self _, hheaderLen, by omega, by omega,
    tlvSection_iff.mpr ⟨tlvs, hwrite, happly⟩, hfill⟩, x, ⟨headerLen, hdeclared, hheaderLen, hrest⟩,
    hwrite⟩

/-- The block of the default parameters. -/
def sampleKdfValue : Bytes :=
  kdfBlockBytes kdfArgon2idV1 38
    [1, 1, 4, 0, 0, 0, 1, 0, 2, 1, 4, 0, 3, 0, 0, 0, 3, 1, 4, 0, 4, 0, 0, 0, 4, 1, 2, 0, 32, 0,
      5, 1, 4, 0, 0x13, 0, 0, 0]

def sampleHeader : VaultHeader where
  vaultId := List.Vector.replicate 16 1
  createdAt := 7
  formatVersion := formatVersion
  schemaProfile := schemaMeissnerRecordsV2
  aeadProfile := aeadXchacha20Poly1305V1
  kdfProfile := kdfArgon2idV1
  kdfParams := canonicalArgon2idV1
  pqcProfile := pqcNone
  headerNonce := List.Vector.replicate 24 2
  profileSet := supportedProfileSet

/-- Its first two TLVs the other way round. -/
def reorderedTlvs : List HeaderTlv :=
  match writtenHeaderTlvs sampleHeader sampleKdfValue with
  | vaultId :: createdAt :: rest => createdAt :: vaultId :: rest
  | tlvs => tlvs

/-- Two TLVs of one unknown tag behind it. -/
def repeatedTlvs : List HeaderTlv :=
  writtenHeaderTlvs sampleHeader sampleKdfValue ++ [⟨0x0100, 0, []⟩, ⟨0x0100, 0, []⟩]

theorem sample_kdf : serializeKdfProfileParams canonicalArgon2idV1 = .ok sampleKdfValue := by
  rfl

theorem sample_parsed : parseKdfProfileParams sampleKdfValue = .ok canonicalArgon2idV1 :=
  parseKdfProfileParams_of_serialize sample_kdf (by decide)

/-- What the loop holds after a sample list: the KDF block is read by its
lemma, all else by evaluation. -/
def sampleFields : HeaderFields where
  vaultId := some sampleHeader.vaultId
  createdAt := some sampleHeader.createdAt
  kdfProfile := some kdfArgon2idV1
  kdfParams := some canonicalArgon2idV1
  aeadProfile := some aeadXchacha20Poly1305V1
  pqcProfile := pqcNone
  schemaProfile := some schemaMeissnerRecordsV2
  headerNonce := some sampleHeader.headerNonce
  seenHeaderTags := 127

theorem sampleFields_fill : sampleFields.Fill sampleHeader :=
  ⟨rfl, rfl, rfl, rfl, rfl, rfl, rfl, rfl, rfl, rfl, rfl, rfl, rfl⟩

/-- The KDF TLV, whatever the other locals hold. -/
theorem applyHeaderTlv_sampleKdf {st : HeaderFields} (hunseen : st.seenHeaderTags &&& 4 = 0) :
    applyHeaderTlv st ⟨tagKdfProfile, criticalFlag, sampleKdfValue, 0⟩
      = .ok { st with
        kdfProfile := some kdfArgon2idV1, kdfParams := some canonicalArgon2idV1,
        seenHeaderTags := st.seenHeaderTags ||| 4 } :=
  applyHeaderTlv_kdfProfile _ rfl sample_parsed hunseen

theorem applyHeaderTlvs_cons {st st' : HeaderFields} {tlv : HeaderTlv} {tlvs : List HeaderTlv}
    (h : applyHeaderTlv st ⟨tlv.tag, tlv.flags, tlv.value, 0⟩ = .ok st') :
    applyHeaderTlvs st (tlv :: tlvs) = applyHeaderTlvs st' tlvs := by
  rw [applyHeaderTlvs, h]
  rfl

theorem applyHeaderTlvs_reordered : applyHeaderTlvs {} reorderedTlvs = .ok sampleFields := by
  refine (applyHeaderTlvs_cons rfl).trans ?_
  refine (applyHeaderTlvs_cons rfl).trans ?_
  refine (applyHeaderTlvs_cons (applyHeaderTlv_sampleKdf rfl)).trans ?_
  rfl

theorem applyHeaderTlvs_repeated : applyHeaderTlvs {} repeatedTlvs = .ok sampleFields := by
  refine (applyHeaderTlvs_cons rfl).trans ?_
  refine (applyHeaderTlvs_cons rfl).trans ?_
  refine (applyHeaderTlvs_cons (applyHeaderTlv_sampleKdf rfl)).trans ?_
  rfl

theorem applyHeaderTlvs_written :
    applyHeaderTlvs {} (writtenHeaderTlvs sampleHeader sampleKdfValue) = .ok sampleFields := by
  refine (applyHeaderTlvs_cons rfl).trans ?_
  refine (applyHeaderTlvs_cons rfl).trans ?_
  refine (applyHeaderTlvs_cons (applyHeaderTlv_sampleKdf rfl)).trans ?_
  rfl

theorem writtenTlvs_canonical : CanonicalTlvs (writtenHeaderTlvs sampleHeader sampleKdfValue) := by
  refine ⟨rfl, fun tlv htlv htag => ?_⟩
  have hvalue : tlv.value ∈ headerValues (writtenHeaderTlvs sampleHeader sampleKdfValue)
    tagKdfProfile :=
    mem_valuesOf.mpr ⟨tlv, htlv, htag, rfl⟩
  rw [List.mem_singleton.mp hvalue]
  obtain ⟨kdfTlvs, hblock⟩ := kdfBlock_of_parse sample_parsed
  exact ⟨kdfTlvs, hblock.kdfTiles, hblock.written_iff.mp sample_kdf⟩

-- ================================================================= results

/-- A header the writer writes parses back, every field as it was, in any
file the writer makes with it; and it makes one where the lengths fit. -/
theorem header_roundtrip {header : VaultHeader} {headerBytes : Bytes}
    (h : serializeHeader header = .ok headerBytes) (recordTable body : Bytes) :
    (∀ out, serializeVaultFile headerBytes recordTable body = .ok out →
        parseHeader out = .ok header)
      ∧ ((∃ out, serializeVaultFile headerBytes recordTable body = .ok out)
        ↔ recordTable.length < 2 ^ 32
          ∧ headerMinLen + headerBytes.length + body.length + recordTable.length ≤ usizeMax) := by
  have hheader := length_of_serializeHeader h
  have husize : usizeMax = 2 ^ 64 - 1 := rfl
  have hu64 : UInt64.size = 2 ^ 64 := rfl
  constructor
  · intro out hout
    obtain ⟨headerLen, tableLen, bodyLen, leading, hheaderLen, htableLen, hbodyLen, hleading, hmax,
      rfl⟩ := serializeVaultFile_eq_ok.mp hout
    obtain ⟨hleadingLen, -⟩ := segAt_front [] hleading
    refine parseHeader_of_serialize h hleading hheaderLen (by omega) ?_ ?_
    · rw [hbodyLen, List.length_append]
    · simp only [List.length_append]
      omega
  · constructor
    · rintro ⟨out, hout⟩
      obtain ⟨headerLen, tableLen, bodyLen, leading, -, htableLen, -, -, hmax, -⟩ :=
        serializeVaultFile_eq_ok.mp hout
      have hlt := tableLen.toNat_lt
      exact ⟨by omega, hmax⟩
    · rintro ⟨htable, hmax⟩
      refine ⟨_, serializeVaultFile_eq_ok.mpr ⟨UInt32.ofNat headerBytes.length,
        UInt32.ofNat recordTable.length, UInt64.ofNat (body.length + recordTable.length), _,
        toNat_u32_ofNat (by omega), toNat_u32_ofNat (by omega),
        UInt64.toNat_ofNat_of_lt' (by omega), serializePrefix_eq_ok.mpr ⟨rfl, rfl⟩, hmax, rfl⟩⟩

/-- The sample header, in a file with a table and a body. -/
theorem header_roundtrip_of_sample :
    ∃ headerBytes out, serializeHeader sampleHeader = .ok headerBytes
      ∧ serializeVaultFile headerBytes [1, 2] [3] = .ok out
      ∧ parseHeader out = .ok sampleHeader := by
  obtain ⟨headerBytes, h⟩ : ∃ headerBytes, serializeHeader sampleHeader
    = .ok headerBytes := ⟨_, rfl⟩
  obtain ⟨hback, hwritten⟩ := header_roundtrip h [1, 2] [3]
  have hfits : headerMinLen + headerBytes.length + 1 + 2 ≤ usizeMax := by
    rw [length_of_serializeHeader h]
    decide
  obtain ⟨out, hout⟩ := hwritten.mpr ⟨by decide, hfits⟩
  exact ⟨headerBytes, out, h, hout, hback out hout⟩

/-- An accepted header is what its TLVs say, and they are determined by the
bytes. No tag occurs twice in it exactly when none of the tags the parser
does not know does. -/
theorem header_sound_iff {bytes : Bytes} {header : VaultHeader}
    (h : parseHeader bytes = .ok header) :
    (∃ tlvs, HeaderReads bytes header tlvs ∧ ∀ other, TilesHeader bytes other → other = tlvs)
      ∧ ((∃ tlvs, HeaderSound bytes header tlvs) ↔ UnknownTagsSingle bytes) := by
  obtain ⟨tlvs, hreads⟩ := headerReads_of_parse h
  refine ⟨⟨tlvs, hreads, fun other hother => hother.unique hreads.tiles⟩, ?_, ?_⟩
  · rintro ⟨tlvs', hsound⟩ other hother
    rw [hother.unique hsound.tiles]
    exact hsound.singleton.filter _
  · intro hsingle
    refine ⟨tlvs, hreads, List.nodup_iff_count_le_one.mpr fun tag => ?_⟩
    by_cases hknown : tag ∈ knownHeaderTags
    · rw [count_eq_length_valuesOf]
      exact hreads.length_le_one tag hknown
    · have hcount := List.nodup_iff_count_le_one.mp (hsingle tlvs hreads.tiles) tag
      rwa [List.count_filter (by simpa using hknown)] at hcount

/-- The writer's own header is sound. -/
theorem header_sound_of_written :
    ∃ bytes, headerFile (writtenHeaderTlvs sampleHeader sampleKdfValue) = .ok bytes
      ∧ ∃ tlvs, HeaderSound bytes sampleHeader tlvs := by
  obtain ⟨bytes, hfile⟩ : ∃ bytes,
      headerFile (writtenHeaderTlvs sampleHeader sampleKdfValue) = .ok bytes :=
    exists_headerFile (by decide) (by decide)
  obtain ⟨hparse, htiles⟩ :=
    parseHeader_of_headerFile hfile applyHeaderTlvs_written sampleFields_fill
  refine ⟨bytes, hfile, (header_sound_iff hparse).2.mpr fun other hother => ?_⟩
  rw [hother.unique htiles]
  decide

/-- A header that has an unknown tag twice is accepted. -/
theorem header_repeated_accepted :
    ∃ bytes, headerFile repeatedTlvs = .ok bytes ∧ parseHeader bytes = .ok sampleHeader
      ∧ ¬ ∃ tlvs, HeaderSound bytes sampleHeader tlvs := by
  obtain ⟨bytes, hfile⟩ : ∃ bytes, headerFile repeatedTlvs = .ok bytes :=
    exists_headerFile (by decide) (by decide)
  obtain ⟨hparse, htiles⟩ :=
    parseHeader_of_headerFile hfile applyHeaderTlvs_repeated sampleFields_fill
  refine ⟨bytes, hfile, hparse, ?_⟩
  rintro ⟨tlvs, hsound⟩
  have hnodup := hsound.singleton
  rw [hsound.tiles.unique htiles] at hnodup
  exact absurd hnodup (by decide)

/-- The writer reproduces the header bytes of an accepted file exactly when
its TLVs, those of the KDF block included, are the writer's in order and
flags. Two such headers with one value are the same. -/
theorem header_reproduced_iff {bytes : Bytes} {header : VaultHeader} {tlvs : List HeaderTlv}
    (h : parseHeader bytes = .ok header) (htlvs : TilesHeader bytes tlvs) :
    ((∃ x, HeaderBytes bytes x ∧ serializeHeader header = .ok x) ↔ CanonicalTlvs tlvs)
      ∧ ∀ bytes' tlvs', parseHeader bytes' = .ok header → TilesHeader bytes' tlvs' →
        CanonicalTlvs tlvs → CanonicalTlvs tlvs' → tlvs' = tlvs := by
  -- what the reader saw is what the writer would write, up to order and flags
  have hwritten : ∀ {bytes : Bytes} {tlvs : List HeaderTlv}, parseHeader bytes = .ok header →
      TilesHeader bytes tlvs →
      ((∃ x, HeaderBytes bytes x ∧ serializeHeader header = .ok x) ↔ CanonicalTlvs tlvs) := by
    intro bytes tlvs h htlvs
    obtain ⟨other, hreads⟩ := headerReads_of_parse h
    rw [htlvs.unique hreads.tiles]
    have hsupported := supported_of_parseHeader (le_usizeMax_of_parseHeader h) h
    exact hreads.reproduced_iff hsupported
  refine ⟨hwritten h htlvs, fun bytes' tlvs' h' htlvs' hcanonical hcanonical' => ?_⟩
  obtain ⟨x, hx, hserialize⟩ := (hwritten h htlvs).mpr hcanonical
  obtain ⟨x', hx', hserialize'⟩ := (hwritten h' htlvs').mpr hcanonical'
  obtain ⟨y, hy, hwrite⟩ := htlvs
  obtain ⟨y', hy', hwrite'⟩ := htlvs'
  rw [hserialize, Except.ok.injEq] at hserialize'
  rw [hy.unique hx] at hwrite
  rw [hy'.unique hx', ← hserialize'] at hwrite'
  exact writeList_injective HeaderTlv.selfDelimiting hwrite' hwrite

/-- The writer's own header is reproduced. -/
theorem header_reproduced_of_written :
    ∃ bytes, headerFile (writtenHeaderTlvs sampleHeader sampleKdfValue) = .ok bytes
      ∧ ∃ x, HeaderBytes bytes x ∧ serializeHeader sampleHeader = .ok x := by
  obtain ⟨bytes, hfile⟩ : ∃ bytes,
      headerFile (writtenHeaderTlvs sampleHeader sampleKdfValue) = .ok bytes :=
    exists_headerFile (by decide) (by decide)
  obtain ⟨hparse, htiles⟩ :=
    parseHeader_of_headerFile hfile applyHeaderTlvs_written sampleFields_fill
  exact ⟨bytes, hfile, (header_reproduced_iff hparse htiles).1.mpr writtenTlvs_canonical⟩

/-- With its first two TLVs the other way round it is accepted as the same
value, and the writer does not write it so. -/
theorem header_reordered_accepted :
    ∃ bytes bytes', headerFile reorderedTlvs = .ok bytes
      ∧ headerFile (writtenHeaderTlvs sampleHeader sampleKdfValue) = .ok bytes' ∧ bytes ≠ bytes'
      ∧ (∀ tlv ∈ reorderedTlvs, tlv.tag ∈ knownHeaderTags)
      ∧ parseHeader bytes = .ok sampleHeader ∧ parseHeader bytes' = .ok sampleHeader
      ∧ ¬ ∃ x, HeaderBytes bytes x ∧ serializeHeader sampleHeader = .ok x := by
  obtain ⟨bytes, hfile⟩ : ∃ bytes, headerFile reorderedTlvs = .ok bytes :=
    exists_headerFile (by decide) (by decide)
  obtain ⟨bytes', hfile'⟩ : ∃ bytes,
      headerFile (writtenHeaderTlvs sampleHeader sampleKdfValue) = .ok bytes :=
    exists_headerFile (by decide) (by decide)
  obtain ⟨hparse, htiles⟩ :=
    parseHeader_of_headerFile hfile applyHeaderTlvs_reordered sampleFields_fill
  obtain ⟨hparse', htiles'⟩ :=
    parseHeader_of_headerFile hfile' applyHeaderTlvs_written sampleFields_fill
  refine ⟨bytes, bytes', hfile, hfile', ?_, by decide, hparse, hparse', ?_⟩
  · rintro rfl
    exact absurd (htiles.unique htiles') (by decide)
  · obtain ⟨tlvs, hreads⟩ := headerReads_of_parse hparse
    rw [hreads.reproduced_iff ⟨rfl, rfl, rfl, rfl, rfl⟩, hreads.tiles.unique htiles]
    rintro ⟨hheads, -⟩
    exact absurd hheads (by decide)

end MeissnerSeal
