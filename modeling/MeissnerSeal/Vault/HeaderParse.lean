/-
What `parse_header` accepts, as a statement about segments.

# The TLV section

A TLV the loop cuts out stands at the cursor as the writer would have
written it, so the loop over a section is a walk
through the section's own TLVs that names no file and no offset
(`TlvSection`). Two files with one header section and prefixes of their
own parse to one header (`parseHeader_eq_ok`).
-/
import MeissnerSeal.Vault.HeaderRoundTrip

namespace MeissnerSeal

open ByteCodec ExceptRules

-- ============================================================ TLV section

/-- The TLVs of a section, in order, take the fields from the first
to the second. -/
inductive TlvSection : Bytes → HeaderFields → HeaderFields → Prop where
  | nil (st : HeaderFields) : TlvSection [] st st
  | cons {tag : UInt16} {flags : UInt8} {value x rest : Bytes} {st st' st'' : HeaderFields}
      (hx : writeHeaderTlv tag flags value = .ok x)
      (happly : applyHeaderTlv st ⟨tag, flags, value, 0⟩ = .ok st')
      (hrest : TlvSection rest st' st'') : TlvSection (x ++ rest) st st''

/-- Where a TLV stops plays no part in what it sets. -/
theorem applyHeaderTlv_valueEnd (st : HeaderFields) (tlv : Tlv) :
    applyHeaderTlv st { tlv with valueEnd := 0 } = applyHeaderTlv st tlv := rfl

/-- The loop walks the section between its cursor and the end of the header. -/
theorem parseHeaderTlvs_eq_ok {bytes : Bytes} {headerEnd cursor stop : Nat} {st st' : HeaderFields}
    (hmax : headerEnd ≤ usizeMax) (hlen : headerEnd ≤ bytes.length) (hcursor : cursor ≤ headerEnd) :
    parseHeaderTlvs bytes headerEnd cursor st = .ok (stop, st')
      ↔ stop = headerEnd ∧ ∃ tlvs, SegAt bytes cursor tlvs ∧ cursor + tlvs.length = headerEnd
        ∧ TlvSection tlvs st st' := by
  constructor
  · intro h
    induction cursor, st using parseHeaderTlvs.induct bytes headerEnd with
    | case1 cursor st hlt e hnext =>
        rw [parseHeaderTlvs, if_pos hlt, hnext] at h
        cases h
    | case2 cursor st hlt tlv hnext e happly =>
        rw [parseHeaderTlvs, if_pos hlt, hnext] at h
        simp only [happly, reduceCtorEq] at h
    | case3 cursor st hlt tlv hnext st₁ happly ih =>
        rw [parseHeaderTlvs, if_pos hlt, hnext] at h
        simp only [happly] at h
        obtain ⟨x, hx, hseg, hstop, hend⟩ := (nextHeaderTlv_eq_ok hmax).mp hnext
        obtain ⟨rfl, rest, hrest, hrestEnd, hwalk⟩ := ih hend h
        rw [hstop] at hrest hrestEnd
        refine ⟨rfl, x ++ rest, segAt_append.mpr ⟨hseg, hrest⟩, ?_, .cons hx ?_ hwalk⟩
        · rw [List.length_append]
          omega
        · exact (applyHeaderTlv_valueEnd st tlv).trans happly
    | case4 cursor st hge =>
        rw [parseHeaderTlvs, if_neg hge] at h
        injection h with h
        obtain ⟨rfl, rfl⟩ := Prod.mk.inj h
        have heq : cursor = headerEnd := by omega
        subst heq
        exact ⟨rfl, [], segAt_nil hlen, rfl, .nil st⟩
  · rintro ⟨rfl, tlvs, hseg, hend, hwalk⟩
    clear hcursor
    induction hwalk generalizing cursor with
    | nil st =>
        rw [List.length_nil, Nat.add_zero] at hend
        rw [hend]
        exact parseHeaderTlvs_end bytes _ st
    | @cons tag flags value x rest st st₁ st₂ hx happly _ ih =>
        rw [List.length_append] at hend
        obtain ⟨hxSeg, hrest⟩ := segAt_append.mp hseg
        have happly' : applyHeaderTlv st ⟨tag, flags, value, cursor + x.length⟩ = .ok st₁ := happly
        rw [parseHeaderTlvs_step hx hxSeg (by omega) hmax happly']
        exact ih hrest (by omega)

-- ================================================================= header

/-- The fields the loop filled are those of a header of this version and
the supported profiles. -/
structure HeaderFields.Fill (fields : HeaderFields) (header : VaultHeader) : Prop where
  vaultId : fields.vaultId = some header.vaultId
  createdAt : fields.createdAt = some header.createdAt
  schemaProfile : fields.schemaProfile = some header.schemaProfile
  aeadProfile : fields.aeadProfile = some header.aeadProfile
  kdfProfile : fields.kdfProfile = some header.kdfProfile
  kdfParams : fields.kdfParams = some header.kdfParams
  pqcProfile : fields.pqcProfile = header.pqcProfile
  headerNonce : fields.headerNonce = some header.headerNonce
  supported : header.formatVersion = formatVersion ∧ header.schemaProfile = schemaMeissnerRecordsV2
    ∧ header.aeadProfile = aeadXchacha20Poly1305V1 ∧ header.kdfProfile = kdfArgon2idV1
    ∧ header.pqcProfile = pqcNone

theorem validateProfileSet_eq_ok {header : VaultHeader} {profileSet : VaultProfileSet} :
    validateProfileSet header = .ok profileSet
      ↔ header.aeadProfile = aeadXchacha20Poly1305V1 ∧ header.pqcProfile = pqcNone
        ∧ header.kdfProfile = kdfArgon2idV1 ∧ header.schemaProfile = schemaMeissnerRecordsV2 := by
  have hnew : ∀ {supported value : UInt16} {error : String} {id : ProfileId supported},
      ProfileId.new supported value error = .ok id ↔ value = supported ∧ id.value = value := by
    intro supported value error id
    obtain ⟨w, rfl⟩ := id
    unfold ProfileId.new
    split
    case isTrue h =>
      subst h
      simp
    case isFalse h => simp [h]
  simp only [validateProfileSet, AeadProfileId.new, PqcProfileId.new, KdfProfileId.new,
    SchemaProfileId.new, bind_eq_ok, hnew, pure_eq_ok, Except.ok.injEq]
  constructor
  · rintro ⟨_, ⟨ha, -⟩, _, ⟨hp, -⟩, _, ⟨hk, -⟩, _, ⟨hs, -⟩, -⟩
    exact ⟨ha, hp, hk, hs⟩
  · rintro ⟨ha, hp, hk, hs⟩
    exact ⟨⟨_, rfl⟩, ⟨ha, ha.symm⟩, ⟨_, rfl⟩, ⟨hp, hp.symm⟩, ⟨_, rfl⟩, ⟨hk, hk.symm⟩, ⟨_, rfl⟩,
      ⟨hs, hs.symm⟩, (VaultProfileSet.eq_supported profileSet).symm⟩

/-- A file `parse_header` accepts begins with a prefix and a section of TLVs
that fill the header, and is as long as the prefix says. -/
theorem parseHeader_eq_ok {bytes : Bytes} {header : VaultHeader} (hmax : bytes.length ≤ usizeMax) :
    parseHeader bytes = .ok header
      ↔ ∃ (headerLen tableLen : UInt32) (bodyLen : UInt64) (prefixBytes tlvs : Bytes)
          (fields : HeaderFields),
        serializePrefix formatVersion headerLen tableLen bodyLen = .ok prefixBytes
        ∧ SegAt bytes 0 (prefixBytes ++ tlvs) ∧ headerLen.toNat = tlvs.length
        ∧ bytes.length = headerMinLen + headerLen.toNat + bodyLen.toNat
        ∧ tableLen.toNat ≤ bodyLen.toNat ∧ TlvSection tlvs {} fields ∧ fields.Fill header := by
  have hmin : headerMinLen = 26 := rfl
  have hoffsets : prefixFormatVersionOffset = 8 ∧ prefixHeaderLenOffset = 10
      ∧ prefixRecordTableLenOffset = 14 ∧ prefixBodyLenOffset = 18 := ⟨rfl, rfl, rfl, rfl⟩
  obtain ⟨hver, hhl, htl, hbl⟩ := hoffsets
  simp only [parseHeader, bind_eq_ok, rejectIf_eq_ok, okOr_eq_ok, sliceIndex_eq_ok,
    readU16Le_eq_ok, readU32Le_eq_ok, readU64Le_eq_ok, checkedAdd_eq_some, pure_eq_ok,
    Except.ok.injEq, Decidable.not_not, serializePrefix_eq_ok, hver, hhl, htl, hbl]
  constructor
  · intro h
    obtain ⟨-, hlong, _, ⟨hmagic, -⟩, -, rfl, version, ⟨hversion, -⟩, -, rfl, headerLen,
      ⟨hheaderLen, -⟩, tableLen, ⟨htableLen, -⟩, bodyLen, ⟨hbodyLen, -⟩, _, ⟨rfl, -⟩, -,
        htable, h⟩ := h
    obtain ⟨_, ⟨rfl, -⟩, -, hfile, ⟨cursor, fields⟩, hloop, -, hend, vaultId, hvaultId, createdAt,
      hcreatedAt, schemaProfile, hschema, aeadProfile, haead, h⟩ := h
    obtain ⟨kdfProfile, hkdf, kdfParams, hkdfParams, headerNonce, hnonce, profileSet, hprofiles,
      rfl⟩ := h
    simp only [not_or, Decidable.not_not] at hend
    obtain ⟨-, hfileEnd⟩ := hend
    obtain ⟨-, tlvs, hseg, htlvs, hwalk⟩ :=
      (parseHeaderTlvs_eq_ok (by omega) (by omega) (by omega)).mp hloop
    obtain ⟨ha, hp, hk, hs⟩ := validateProfileSet_eq_ok.mp hprofiles
    refine ⟨headerLen, tableLen, bodyLen, _, tlvs, fields, ⟨trivial, rfl⟩, ?_, by omega, by omega,
      by omega, hwalk, ⟨hvaultId, hcreatedAt, hschema, haead, hkdf, hkdfParams, rfl,
        hnonce, rfl, hs, ha, hk, hp⟩⟩
    simp only [segAt_append, List.length_append, length_leU16, length_leU32, length_leU64,
      length_magic, Nat.zero_add, Nat.reduceAdd]
    exact ⟨⟨⟨⟨⟨hmagic, hversion⟩, hheaderLen⟩, htableLen⟩, hbodyLen⟩, hseg⟩
  · rintro ⟨headerLen, tableLen, bodyLen, _, tlvs, fields, ⟨-, rfl⟩, hseg, htlvs, hfile, htable,
      hwalk, hfill⟩
    simp only [segAt_append, List.length_append, length_leU16, length_leU32, length_leU64,
      length_magic, Nat.zero_add, Nat.reduceAdd] at hseg
    obtain ⟨⟨⟨⟨⟨hmagic, hversion⟩, hheaderLen⟩, htableLen⟩, hbodyLen⟩, htlvSeg⟩ := hseg
    have hloop : parseHeaderTlvs bytes (headerMinLen + headerLen.toNat) headerMinLen {}
        = .ok (headerMinLen + headerLen.toNat, fields) :=
      (parseHeaderTlvs_eq_ok (by omega) (by omega) (by omega)).mpr
        ⟨rfl, tlvs, htlvSeg, by omega, hwalk⟩
    obtain ⟨hformat, hs, ha, hk, hp⟩ := hfill.supported
    refine ⟨(), by omega, magic, ⟨hmagic, rfl⟩, (), rfl, formatVersion, ⟨hversion, by decide⟩, (),
      rfl, headerLen, ⟨hheaderLen, by decide⟩, tableLen, ⟨htableLen, by decide⟩, bodyLen,
      ⟨hbodyLen, by decide⟩, _, ⟨rfl, by omega⟩, (), by omega, _, ⟨rfl, by omega⟩, (), by omega, _,
      hloop, (), ?_, _, hfill.vaultId, _, hfill.createdAt, _, hfill.schemaProfile, _,
      hfill.aeadProfile, _, hfill.kdfProfile, _, hfill.kdfParams, _, hfill.headerNonce,
      header.profileSet, ?_, ?_⟩
    · rintro (h | h)
      · exact h rfl
      · omega
    · refine validateProfileSet_eq_ok.mpr ⟨ha, ?_, hk, hs⟩
      simp only [hfill.pqcProfile]
      exact hp
    · rw [hfill.pqcProfile, ← hformat]

/-- A header section parses to the same header under any prefix that
counts it, whatever body follows. -/
theorem parseHeader_of_section {bytes headerBytes prefixBytes body : Bytes} {header : VaultHeader}
    {headerLen headerLen' tableLen : UInt32} {bodyLen : UInt64} (h : parseHeader bytes = .ok header)
    (hmax : bytes.length ≤ usizeMax) (hlen : SegAt bytes prefixHeaderLenOffset (leU32 headerLen))
    (hheader : SegAt bytes headerMinLen headerBytes)
    (hheaderLen : headerLen.toNat = headerBytes.length)
    (hleading : serializePrefix formatVersion headerLen' tableLen bodyLen = .ok prefixBytes)
    (hheaderLen' : headerLen'.toNat = headerBytes.length) (htable : tableLen.toNat ≤ bodyLen.toNat)
    (hbody : bodyLen.toNat = body.length)
    (hmax' : (prefixBytes ++ (headerBytes ++ body)).length ≤ usizeMax) :
    parseHeader (prefixBytes ++ (headerBytes ++ body)) = .ok header := by
  obtain ⟨len, _, _, leading, tlvs, fields, hold, hseg, htlvs, -, -, hwalk, hfill⟩ :=
    (parseHeader_eq_ok hmax).mp h
  obtain ⟨hleadingLen, -, -, h10, -, -, -⟩ := segAt_front [] hold
  rw [List.append_nil] at h10
  rw [segAt_append, hleadingLen, Nat.zero_add] at hseg
  have hsame : len = headerLen := leU32_inj ((hseg.1.trans h10).unique hlen rfl)
  subst hsame
  obtain rfl : tlvs = headerBytes := hseg.2.unique hheader (by omega)
  obtain ⟨hlen', -⟩ := segAt_front [] hleading
  refine (parseHeader_eq_ok hmax').mpr ⟨headerLen', tableLen, bodyLen, prefixBytes, tlvs, fields,
    hleading, ⟨[], body, by simp, rfl⟩, hheaderLen', ?_, htable, hwalk, hfill⟩
  simp only [List.length_append]
  omega

/-- A file parses by what stands up to the end of its header,
and its length. -/
theorem parseHeader_of_same {bytes bytes' : Bytes} {header : VaultHeader} {headerLen : UInt32}
    (h : parseHeader bytes = .ok header) (hmax : bytes.length ≤ usizeMax)
    (hlen : SegAt bytes prefixHeaderLenOffset (leU32 headerLen))
    (hlength : bytes'.length = bytes.length)
    (hsame : ∀ off x, off + x.length ≤ headerMinLen + headerLen.toNat → SegAt bytes off x →
      SegAt bytes' off x) :
    parseHeader bytes' = .ok header := by
  obtain ⟨len, tableLen, bodyLen, prefixBytes, tlvs, fields, hleading, hseg, htlvs, hfile, htable,
    hwalk, hfill⟩ := (parseHeader_eq_ok hmax).mp h
  obtain ⟨hleadingLen, -, -, h10, -, -, -⟩ := segAt_front [] hleading
  rw [List.append_nil] at h10
  have hsame' : len = headerLen :=
    leU32_inj (((segAt_append.mp hseg).1.trans h10).unique (by rwa [Nat.zero_add]) rfl)
  refine (parseHeader_eq_ok (hlength ▸ hmax)).mpr ⟨len, tableLen, bodyLen,
    prefixBytes, tlvs, fields, hleading, hsame 0 _ ?_ hseg, htlvs, hlength ▸ hfile,
      htable, hwalk, hfill⟩
  rw [List.length_append, hleadingLen, ← htlvs, hsame', Nat.zero_add]

/-- What a header that parses is, beside the fields that vary. -/
theorem supported_of_parseHeader {bytes : Bytes} {header : VaultHeader}
    (hmax : bytes.length ≤ usizeMax) (h : parseHeader bytes = .ok header) :
    header.formatVersion = formatVersion ∧ header.schemaProfile = schemaMeissnerRecordsV2
      ∧ header.aeadProfile = aeadXchacha20Poly1305V1 ∧ header.kdfProfile = kdfArgon2idV1
      ∧ header.pqcProfile = pqcNone := by
  obtain ⟨-, -, -, -, -, fields, -, -, -, -, -, -, hfill⟩ := (parseHeader_eq_ok hmax).mp h
  exact hfill.supported

end MeissnerSeal
