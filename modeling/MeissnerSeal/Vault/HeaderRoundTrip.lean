/-
The header round trip: what `serialize_kdf_profile_params` and
`serialize_header` write, the parser reads back, whatever follows the
header in the file.

# Proof shape

A TLV the loop cuts out stands at the cursor as the writer would have
written it (`nextHeaderTlv_eq_ok`, `nextKdfParamTlv_eq_ok`). Each parser
loop has one step lemma: such a TLV moves the cursor over it and the
fields through the tag match. Each tag has one lemma: where it was not seen
before, the match fills its field. A round trip is then the loop unrolled
over the writer's own TLV sequence.
-/
import MeissnerSeal.Vault.Engine

namespace MeissnerSeal

open ByteCodec ExceptRules

-- ================================================================ writers

/-- The writer refuses a value whose length does not fit its field, and that
is all it refuses. -/
theorem writeHeaderTlv_eq_ok {tag : UInt16} {flags : UInt8} {value x : Bytes} :
    writeHeaderTlv tag flags value = .ok x
      ↔ ∃ len : UInt32, len.toNat = value.length
          ∧ x = leU16 tag ++ [flags] ++ leU32 len ++ value := by
  simp [writeHeaderTlv, lenToU32, bind_eq_ok, @eq_comm _ x]

theorem length_of_writeHeaderTlv {tag : UInt16} {flags : UInt8} {value x : Bytes}
    (h : writeHeaderTlv tag flags value = .ok x) : x.length = tlvHeaderLen + value.length := by
  obtain ⟨len, -, rfl⟩ := writeHeaderTlv_eq_ok.mp h
  simp [tlvHeaderLen]
  omega

/-- A TLV of the KDF block: no flags, and a length of two bytes. -/
theorem writeKdfParamTlv_eq_ok {tag : UInt16} {value x : Bytes} :
    writeKdfParamTlv tag value = .ok x
      ↔ ∃ len : UInt16, len.toNat = value.length ∧ x = leU16 tag ++ leU16 len ++ value := by
  simp [writeKdfParamTlv, bind_eq_ok, @eq_comm _ x]

theorem length_of_writeKdfParamTlv {tag : UInt16} {value x : Bytes}
    (h : writeKdfParamTlv tag value = .ok x) :
    x.length = kdfParamTlvHeaderLen + value.length := by
  obtain ⟨len, -, rfl⟩ := writeKdfParamTlv_eq_ok.mp h
  simp [kdfParamTlvHeaderLen]
  omega

-- ============================================================ loop steps

/-- The parameter at a cursor. -/
theorem nextKdfParamTlv_eq_ok {value : Bytes} {paramsEnd cursor : Nat} {tlv : Tlv}
    (hmax : paramsEnd ≤ usizeMax) :
    nextKdfParamTlv value paramsEnd cursor = .ok tlv
      ↔ tlv.flags = 0 ∧ ∃ x, writeKdfParamTlv tlv.tag tlv.value = .ok x ∧ SegAt value cursor x
        ∧ tlv.valueEnd = cursor + x.length ∧ tlv.valueEnd ≤ paramsEnd := by
  have hhead : kdfParamTlvHeaderLen = 4 := rfl
  simp only [nextKdfParamTlv, bind_eq_ok, rejectIf_eq_ok, okOr_eq_ok, checkedAdd_eq_some,
    usizeAdd_eq_ok, usizeSub_eq_ok, sliceIndex_eq_ok, readArray_eq_ok, pure_eq_ok, Except.ok.injEq,
    hhead]
  constructor
  · intro h
    obtain ⟨_, ⟨rfl, hroom⟩, -, hlong, _, ⟨rfl, -⟩, _, ⟨rfl, -⟩, _, ⟨htag, -⟩, tag,
      rfl, _, ⟨hlen, -⟩, len, rfl, h⟩ := h
    obtain ⟨_, ⟨rfl, -⟩, _, ⟨rfl, -⟩, -, hend, paramValue, ⟨hvalue, hvalueLen⟩, rfl⟩ := h
    have hlength : (u16OfLE len).toNat = paramValue.length := by omega
    -- the two fields the reader took and the value are what is written of them
    refine ⟨rfl, _, writeKdfParamTlv_eq_ok.mpr ⟨u16OfLE len, hlength, rfl⟩, ?_, ?_,
      by simp only; omega⟩
    · simp only [leU16_u16OfLE, segAt_append, List.length_append, List.Vector.toList_length]
      exact ⟨⟨htag, hlen⟩, hvalue⟩
    · simp only [List.length_append, length_leU16]
      omega
  · rintro ⟨hflags, x, hx, hseg, hstop, hend⟩
    obtain ⟨len, hlen, rfl⟩ := writeKdfParamTlv_eq_ok.mp hx
    obtain ⟨tag, flags, paramValue, stop⟩ := tlv
    rw [segAt_append, segAt_append] at hseg
    simp only [length_leU16, List.length_append] at hseg hstop
    obtain ⟨⟨htag, hlenSeg⟩, hvalue⟩ := hseg
    simp only at hflags hstop hend hlen htag hvalue ⊢
    subst hflags
    have hlength : (u16OfLE (arrayLE16 len)).toNat = paramValue.length := by
      rw [u16OfLE_arrayLE16, hlen]
    -- the checks of the reader in turn, at the lengths of what is written
    refine ⟨_, ⟨rfl, by omega⟩, (), by omega, _, ⟨rfl, by omega⟩, _, ⟨rfl, by omega⟩, _,
      ⟨htag, by simp⟩, arrayLE16 tag, rfl, _, ⟨hlenSeg, by simp⟩, arrayLE16 len, rfl, _,
      ⟨rfl, by omega⟩, stop, ⟨by omega, by omega⟩, (), by omega, paramValue, ⟨hvalue, by omega⟩, ?_⟩
    rw [u16OfLE_arrayLE16]

/-- The KDF parameter loop over one written TLV. -/
theorem parseKdfParamTlvs_step {value x y : Bytes} {paramsEnd cursor : Nat} {tag : UInt16}
    {st st' : KdfParamFields} (hx : writeKdfParamTlv tag x = .ok y) (hseg : SegAt value cursor y)
    (hend : cursor + y.length ≤ paramsEnd) (hmax : paramsEnd ≤ usizeMax)
    (happly : applyKdfParamTlv st ⟨tag, 0, x, cursor + y.length⟩ = .ok st') :
    parseKdfParamTlvs value paramsEnd cursor st
      = parseKdfParamTlvs value paramsEnd (cursor + y.length) st' := by
  have hylen := length_of_writeKdfParamTlv hx
  have hkdf : kdfParamTlvHeaderLen = 4 := rfl
  have hnext : nextKdfParamTlv value paramsEnd cursor = .ok ⟨tag, 0, x, cursor + y.length⟩ :=
    (nextKdfParamTlv_eq_ok hmax).mpr ⟨rfl, y, hx, hseg, rfl, hend⟩
  rw [parseKdfParamTlvs, if_pos (by omega), hnext]
  simp only [happly]

/-- The TLV at a cursor. -/
theorem nextHeaderTlv_eq_ok {bytes : Bytes} {headerEnd cursor : Nat} {tlv : Tlv}
    (hmax : headerEnd ≤ usizeMax) :
    nextHeaderTlv bytes headerEnd cursor = .ok tlv
      ↔ ∃ x, writeHeaderTlv tlv.tag tlv.flags tlv.value = .ok x ∧ SegAt bytes cursor x
        ∧ tlv.valueEnd = cursor + x.length ∧ tlv.valueEnd ≤ headerEnd := by
  have htlv : tlvHeaderLen = 7 := rfl
  simp only [nextHeaderTlv, bind_eq_ok, rejectIf_eq_ok, okOr_eq_ok, checkedAdd_eq_some,
    usizeAdd_eq_ok, usizeSub_eq_ok, sliceIndex_eq_ok, readU16Le_eq_ok, readU32Le_eq_ok, index_eq_ok,
    pure_eq_ok, Except.ok.injEq, htlv]
  constructor
  · rintro ⟨_, ⟨rfl, hroom⟩, -, hlong, tag, ⟨htag, -⟩, _, ⟨rfl, -⟩, flags, hflags, _, ⟨rfl, -⟩,
      len, ⟨hlen, -⟩, _, ⟨rfl, -⟩, _, ⟨rfl, -⟩, -, hend, value, ⟨hvalue, hvalueLen⟩, rfl⟩
    have hlenEq : len.toNat = value.length := by omega
    refine ⟨_, writeHeaderTlv_eq_ok.mpr ⟨len, hlenEq, rfl⟩, ?_, ?_, by simp only; omega⟩
    · rw [segAt_append, segAt_append, segAt_append]
      simp only [length_leU16, length_leU32, List.length_append, List.length_singleton]
      exact ⟨⟨⟨htag, hflags⟩, hlen⟩, hvalue⟩
    · simp only [length_leU16, length_leU32, List.length_append, List.length_singleton]
      omega
  · rintro ⟨x, hx, hseg, hstop, hend⟩
    obtain ⟨len, hlen, rfl⟩ := writeHeaderTlv_eq_ok.mp hx
    rw [segAt_append, segAt_append, segAt_append] at hseg
    simp only [length_leU16, length_leU32, List.length_append, List.length_singleton]
      at hseg hstop
    obtain ⟨⟨⟨htag, hflags⟩, hlenSeg⟩, hvalue⟩ := hseg
    obtain ⟨tag, flags, value, stop⟩ := tlv
    simp only at hstop hend hlen htag hflags hvalue ⊢
    refine ⟨_, ⟨rfl, by omega⟩, (), by omega, tag, ⟨htag, by omega⟩, _, ⟨rfl, by omega⟩, flags,
      hflags, _, ⟨rfl, by omega⟩, len, ⟨hlenSeg, by omega⟩, _, ⟨rfl, by omega⟩,
      _, ⟨rfl, by omega⟩, (), by omega, value, ⟨hvalue, by omega⟩, ?_⟩
    rw [hlen, hstop]
    congr 1
    omega

/-- The header loop over one written TLV. -/
theorem parseHeaderTlvs_step {bytes value x : Bytes} {headerEnd cursor : Nat} {tag : UInt16}
    {flags : UInt8} {st st' : HeaderFields} (hx : writeHeaderTlv tag flags value = .ok x)
    (hseg : SegAt bytes cursor x) (hend : cursor + x.length ≤ headerEnd)
    (hmax : headerEnd ≤ usizeMax)
    (happly : applyHeaderTlv st ⟨tag, flags, value, cursor + x.length⟩ = .ok st') :
    parseHeaderTlvs bytes headerEnd cursor st
      = parseHeaderTlvs bytes headerEnd (cursor + x.length) st' := by
  have hxlen := length_of_writeHeaderTlv hx
  have htlv : tlvHeaderLen = 7 := rfl
  have hnext : nextHeaderTlv bytes headerEnd cursor
      = .ok ⟨tag, flags, value, cursor + x.length⟩ :=
    (nextHeaderTlv_eq_ok hmax).mpr ⟨x, hx, hseg, rfl, hend⟩
  rw [parseHeaderTlvs, if_pos (by omega), hnext]
  simp only [happly]

/-- The header loop at its end. -/
theorem parseHeaderTlvs_end (bytes : Bytes) (headerEnd : Nat) (st : HeaderFields) :
    parseHeaderTlvs bytes headerEnd headerEnd st = .ok (headerEnd, st) := by
  rw [parseHeaderTlvs, if_neg (Nat.lt_irrefl _)]

-- ============================================================ tag matches

section KdfParamTags

variable {st : KdfParamFields} {flags : UInt8} {stop : Nat}

/-- A tag of the KDF block fills its own field. That it was not seen is that
the field is empty. -/
theorem applyKdfParamTlv_mCostKib (v : UInt32) (hnew : st.mCostKib = none) :
    applyKdfParamTlv st ⟨tagKdfMCostKib, flags, leU32 v, stop⟩
      = .ok { st with mCostKib := some v } := by
  simp only [applyKdfParamTlv, rejectDuplicate, hnew, readKdfU32_eq_ok.mpr rfl]
  rfl

theorem applyKdfParamTlv_tCost (v : UInt32) (hnew : st.tCost = none) :
    applyKdfParamTlv st ⟨tagKdfTCost, flags, leU32 v, stop⟩ = .ok { st with tCost := some v } := by
  simp only [applyKdfParamTlv, rejectDuplicate, hnew, readKdfU32_eq_ok.mpr rfl]
  rfl

theorem applyKdfParamTlv_pLanes (v : UInt32) (hnew : st.pLanes = none) :
    applyKdfParamTlv st ⟨tagKdfPLanes, flags, leU32 v, stop⟩ = .ok
      { st with pLanes := some v } := by
  simp only [applyKdfParamTlv, rejectDuplicate, hnew, readKdfU32_eq_ok.mpr rfl]
  rfl

theorem applyKdfParamTlv_outputLen (v : UInt16) (hnew : st.outputLen = none) :
    applyKdfParamTlv st ⟨tagKdfOutputLen, flags, leU16 v, stop⟩
      = .ok { st with outputLen := some v.toNat } := by
  simp only [applyKdfParamTlv, rejectDuplicate, hnew, readKdfU16_eq_ok.mpr rfl]
  rfl

theorem applyKdfParamTlv_argon2Version (v : UInt32) (hnew : st.argon2Version = none) :
    applyKdfParamTlv st ⟨tagKdfArgon2Version, flags, leU32 v, stop⟩
      = .ok { st with argon2Version := some v } := by
  simp only [applyKdfParamTlv, rejectDuplicate, hnew, readKdfU32_eq_ok.mpr rfl]
  rfl

end KdfParamTags

section HeaderTags

variable {st : HeaderFields} {flags : UInt8} {stop : Nat} (seen : UInt16)
  (hst : st.seenHeaderTags = seen)

include hst

/-- A tag of the header fills its own field. That it was not seen is that
its bit is not set, and filling the field sets it. -/
theorem applyHeaderTlv_vaultId (v : U8Array 16) (hnew : seen &&& 1 = 0) :
    applyHeaderTlv st ⟨tagVaultId, flags, v.toList, stop⟩
      = .ok { st with vaultId := some v, seenHeaderTags := seen ||| 1 } := by
  simp only [applyHeaderTlv, markSeenHeaderTag, rejectDuplicate, hst, hnew, readArray_eq_ok.mpr rfl]
  rfl

theorem applyHeaderTlv_createdAt (v : UInt64) (hnew : seen &&& 2 = 0) :
    applyHeaderTlv st ⟨tagCreatedAt, flags, leU64 v, stop⟩
      = .ok { st with createdAt := some v, seenHeaderTags := seen ||| 2 } := by
  simp only [applyHeaderTlv, markSeenHeaderTag, rejectDuplicate, hst, hnew,
    readTlvU64_eq_ok.mpr rfl]
  rfl

/-- The value of this tag is a block of TLVs, with a parser of its own. -/
theorem applyHeaderTlv_kdfProfile {value : Bytes} {params : HeaderKdfParams}
    (hvalue : parseKdfProfileParams value = .ok params) (hnew : seen &&& 4 = 0) :
    applyHeaderTlv st ⟨tagKdfProfile, flags, value, stop⟩
      = .ok { st with
        kdfProfile := some params.profileId, kdfParams := some params,
        seenHeaderTags := seen ||| 4 } := by
  simp only [applyHeaderTlv, markSeenHeaderTag, rejectDuplicate, hst, hnew, hvalue]
  rfl

theorem applyHeaderTlv_aeadProfile (v : UInt16) (hnew : seen &&& 8 = 0) :
    applyHeaderTlv st ⟨tagAeadProfile, flags, leU16 v, stop⟩
      = .ok { st with aeadProfile := some v, seenHeaderTags := seen ||| 8 } := by
  simp only [applyHeaderTlv, markSeenHeaderTag, rejectDuplicate, hst, hnew,
    readTlvU16_eq_ok.mpr rfl]
  rfl

theorem applyHeaderTlv_pqcProfile (v : UInt16) (hnew : seen &&& 16 = 0) :
    applyHeaderTlv st ⟨tagPqcProfile, flags, leU16 v, stop⟩
      = .ok { st with pqcProfile := v, seenHeaderTags := seen ||| 16 } := by
  simp only [applyHeaderTlv, markSeenHeaderTag, rejectDuplicate, hst, hnew,
    readTlvU16_eq_ok.mpr rfl]
  rfl

theorem applyHeaderTlv_schemaProfile (v : UInt16) (hnew : seen &&& 32 = 0) :
    applyHeaderTlv st ⟨tagSchemaProfile, flags, leU16 v, stop⟩
      = .ok { st with schemaProfile := some v, seenHeaderTags := seen ||| 32 } := by
  simp only [applyHeaderTlv, markSeenHeaderTag, rejectDuplicate, hst, hnew,
    readTlvU16_eq_ok.mpr rfl]
  rfl

theorem applyHeaderTlv_headerNonce (v : Nonce) (hnew : seen &&& 64 = 0) :
    applyHeaderTlv st ⟨tagHeaderNonce, flags, v.toList, stop⟩
      = .ok { st with headerNonce := some v, seenHeaderTags := seen ||| 64 } := by
  simp only [applyHeaderTlv, markSeenHeaderTag, rejectDuplicate, hst, hnew, readArray_eq_ok.mpr rfl]
  rfl

end HeaderTags

-- =========================================================== round trips

/-- The parameter loop over the five TLVs of the writer. -/
theorem parseKdfParamTlvs_of_written {value m t p o v : Bytes} {cursor : Nat}
    {mCost tCost pLanes version : UInt32} {outputLen : UInt16}
    (hm : writeKdfParamTlv tagKdfMCostKib (leU32 mCost) = .ok m)
    (ht : writeKdfParamTlv tagKdfTCost (leU32 tCost) = .ok t)
    (hp : writeKdfParamTlv tagKdfPLanes (leU32 pLanes) = .ok p)
    (ho : writeKdfParamTlv tagKdfOutputLen (leU16 outputLen) = .ok o)
    (hv : writeKdfParamTlv tagKdfArgon2Version (leU32 version) = .ok v)
    (hseg : SegAt value cursor (m ++ t ++ p ++ o ++ v))
    (hend : cursor + (m ++ t ++ p ++ o ++ v).length = value.length)
    (hmax : value.length ≤ usizeMax) :
    parseKdfParamTlvs value value.length cursor {}
      = .ok (value.length,
          { mCostKib := some mCost, tCost := some tCost, pLanes := some pLanes,
            outputLen := some outputLen.toNat, argon2Version := some version }) := by
  simp only [segAt_append, List.length_append, ← Nat.add_assoc] at hseg hend
  obtain ⟨⟨⟨⟨hsm, hst⟩, hsp⟩, hso⟩, hsv⟩ := hseg
  refine (parseKdfParamTlvs_step hm hsm (by omega) hmax (applyKdfParamTlv_mCostKib _ rfl)).trans ?_
  refine (parseKdfParamTlvs_step ht hst (by omega) hmax (applyKdfParamTlv_tCost _ rfl)).trans ?_
  refine (parseKdfParamTlvs_step hp hsp (by omega) hmax (applyKdfParamTlv_pLanes _ rfl)).trans ?_
  refine (parseKdfParamTlvs_step ho hso (by omega) hmax (applyKdfParamTlv_outputLen _ rfl)).trans ?_
  refine (parseKdfParamTlvs_step hv hsv (by omega) hmax
    (applyKdfParamTlv_argon2Version _ rfl)).trans ?_
  rw [hend, parseKdfParamTlvs, if_neg (Nat.lt_irrefl _)]

/-- The KDF parameter value a header and an export bundle carry parses
back to the parameters. -/
theorem parseKdfProfileParams_of_serialize {params : HeaderKdfParams} {value : Bytes}
    (h : serializeKdfProfileParams params = .ok value) (hmax : value.length ≤ usizeMax) :
    parseKdfProfileParams value = .ok params := by
  simp only [serializeKdfProfileParams, lenToU32, bind_eq_ok, rejectIf_eq_ok, okOr_eq_ok,
    u16TryFrom_eq_some, u32TryFrom_eq_some, pure_eq_ok, Except.ok.injEq, Decidable.not_not] at h
  obtain ⟨-, hprofile, -, hversion, u, hvalid, m, hm, t, ht, p, hp, o, ho, o', ho', v, hv, len,
    hlen, hvalue⟩ := h
  have hseg := segAt_self value
  rw [← hvalue, segAt_append, segAt_append, hvalue] at hseg
  obtain ⟨⟨hid, hparamsLen⟩, htlvs⟩ := hseg
  simp only [length_leU16, length_leU32, List.length_append, Nat.zero_add] at hparamsLen htlvs
  have hvlen : 6 + (m ++ t ++ p ++ o' ++ v).length = value.length := by
    rw [← hvalue]
    simp only [List.length_append, length_leU16, length_leU32]
  have hloop := parseKdfParamTlvs_of_written hm ht hp ho' hv htlvs hvlen hmax
  have hhead : kdfProfileHeaderLen = 6 := rfl
  have hend : kdfProfileHeaderLen + (u32OfLE (arrayLE32 len)).toNat = value.length := by
    rw [u32OfLE_arrayLE32, hlen, hhead, hvlen]
  simp only [parseKdfProfileParams, bind_eq_ok, rejectIf_eq_ok, okOr_eq_ok, sliceIndex_eq_ok,
    readArray_eq_ok, checkedAdd_eq_some, pure_eq_ok, Except.ok.injEq, Decidable.not_not]
  refine ⟨(), by omega, _, ⟨hid, by simp⟩, arrayLE16 params.profileId, rfl, (),
    by rw [u16OfLE_arrayLE16, hprofile], _, ⟨hparamsLen, by simp⟩, arrayLE32 len, rfl, value.length,
    ⟨hend.symm, hend ▸ hmax⟩, (), rfl, _, hloop, (), rfl, params.argon2Version, rfl, (), hversion,
    params.argon2.mCostKib, rfl, params.argon2.tCost, rfl, params.argon2.pLanes, rfl, o.toNat,
    rfl, u, ?_, ?_⟩
  · rw [ho]
    exact hvalid
  · rw [ho, u16OfLE_arrayLE16]

/-- The header loop over the seven TLVs of the writer. -/
theorem parseHeaderTlvs_of_written {bytes i c k a q s n kdfValue : Bytes}
    {headerEnd cursor : Nat} {vaultId : U8Array 16} {createdAt : UInt64}
    {kdfParams : HeaderKdfParams} {aeadProfile pqcProfile schemaProfile : UInt16}
    {headerNonce : Nonce}
    (hkdf : parseKdfProfileParams kdfValue = .ok kdfParams)
    (hi : writeHeaderTlv tagVaultId criticalFlag vaultId.toList = .ok i)
    (hc : writeHeaderTlv tagCreatedAt criticalFlag (leU64 createdAt) = .ok c)
    (hk : writeHeaderTlv tagKdfProfile criticalFlag kdfValue = .ok k)
    (ha : writeHeaderTlv tagAeadProfile criticalFlag (leU16 aeadProfile) = .ok a)
    (hq : writeHeaderTlv tagPqcProfile 0 (leU16 pqcProfile) = .ok q)
    (hs : writeHeaderTlv tagSchemaProfile criticalFlag (leU16 schemaProfile) = .ok s)
    (hn : writeHeaderTlv tagHeaderNonce criticalFlag headerNonce.toList = .ok n)
    (hseg : SegAt bytes cursor (i ++ c ++ k ++ a ++ q ++ s ++ n))
    (hend : cursor + (i ++ c ++ k ++ a ++ q ++ s ++ n).length = headerEnd)
    (hmax : headerEnd ≤ usizeMax) :
    parseHeaderTlvs bytes headerEnd cursor {}
      = .ok (headerEnd,
          { vaultId := some vaultId, createdAt := some createdAt,
            kdfProfile := some kdfParams.profileId, kdfParams := some kdfParams,
            aeadProfile := some aeadProfile, pqcProfile := pqcProfile,
            schemaProfile := some schemaProfile, headerNonce := some headerNonce,
            seenHeaderTags := 127 }) := by
  simp only [segAt_append, List.length_append, ← Nat.add_assoc] at hseg hend
  obtain ⟨⟨⟨⟨⟨⟨hsi, hsc⟩, hsk⟩, hsa⟩, hsq⟩, hss⟩, hsn⟩ := hseg
  -- one step to each TLV; the mask of the tags seen grows from 0 to 127
  refine (parseHeaderTlvs_step hi hsi (by omega) hmax
    (applyHeaderTlv_vaultId 0 rfl vaultId rfl)).trans ?_
  refine (parseHeaderTlvs_step hc hsc (by omega) hmax
    (applyHeaderTlv_createdAt 1 rfl createdAt rfl)).trans ?_
  refine (parseHeaderTlvs_step hk hsk (by omega) hmax
    (applyHeaderTlv_kdfProfile 3 rfl hkdf rfl)).trans ?_
  refine (parseHeaderTlvs_step ha hsa (by omega) hmax
    (applyHeaderTlv_aeadProfile 7 rfl aeadProfile rfl)).trans ?_
  refine (parseHeaderTlvs_step hq hsq (by omega) hmax
    (applyHeaderTlv_pqcProfile 15 rfl pqcProfile rfl)).trans ?_
  refine (parseHeaderTlvs_step hs hss (by omega) hmax
    (applyHeaderTlv_schemaProfile 31 rfl schemaProfile rfl)).trans ?_
  refine (parseHeaderTlvs_step hn hsn (by omega) hmax
    (applyHeaderTlv_headerNonce 63 rfl headerNonce rfl)).trans ?_
  subst hend
  exact parseHeaderTlvs_end bytes _ _

/-- Each profile registry has one value, so profile sets do not differ. -/
theorem VaultProfileSet.eq_supported (profileSet : VaultProfileSet) :
    profileSet = supportedProfileSet := by
  obtain ⟨⟨a, rfl⟩, ⟨q, rfl⟩, ⟨k, rfl⟩, ⟨s, rfl⟩⟩ := profileSet
  rfl

/-- Every value has a fixed width, so the block has a fixed length. -/
theorem length_of_serializeKdfProfileParams {params : HeaderKdfParams} {x : Bytes}
    (h : serializeKdfProfileParams params = .ok x) : x.length = 44 := by
  simp only [serializeKdfProfileParams, bind_eq_ok, okOr_eq_ok, pure_eq_ok, Except.ok.injEq] at h
  obtain ⟨-, -, -, -, -, -, m, hm, t, ht, p, hp, o, -, o', ho, v, hv, len, -, rfl⟩ := h
  have hm := length_of_writeKdfParamTlv hm
  have ht := length_of_writeKdfParamTlv ht
  have hp := length_of_writeKdfParamTlv hp
  have ho := length_of_writeKdfParamTlv ho
  have hv := length_of_writeKdfParamTlv hv
  have hhead : kdfParamTlvHeaderLen = 4 := rfl
  simp only [length_leU16, length_leU32] at hm ht hp ho hv
  simp only [List.length_append, length_leU16, length_leU32]
  omega

/-- Every header is 147 bytes. -/
theorem length_of_serializeHeader {header : VaultHeader} {x : Bytes}
    (h : serializeHeader header = .ok x) : x.length = 147 := by
  simp only [serializeHeader, bind_eq_ok, pure_eq_ok, Except.ok.injEq] at h
  obtain ⟨-, -, -, -, -, -, -, -, -, -, -, -, -, -, i, hi, c, hc, kdf, hkdf, k, hk, a, ha, q, hq, s,
    hs, n, hn, rfl⟩ := h
  have hi := length_of_writeHeaderTlv hi
  have hc := length_of_writeHeaderTlv hc
  have hk := length_of_writeHeaderTlv hk
  have ha := length_of_writeHeaderTlv ha
  have hq := length_of_writeHeaderTlv hq
  have hs := length_of_writeHeaderTlv hs
  have hn := length_of_writeHeaderTlv hn
  have hkdf := length_of_serializeKdfProfileParams hkdf
  have hhead : tlvHeaderLen = 7 := rfl
  simp only [length_leU16, length_leU64, List.Vector.toList_length] at hi hc ha hq hs hn
  simp only [List.length_append]
  omega

/-- The prefix is written for one version only. -/
theorem serializePrefix_eq_ok {version : UInt16} {headerLen recordTableLen : UInt32}
    {bodyLen : UInt64} {x : Bytes} :
    serializePrefix version headerLen recordTableLen bodyLen = .ok x
      ↔ version = formatVersion
        ∧ x = magic ++ leU16 version ++ leU32 headerLen ++ leU32 recordTableLen
            ++ leU64 bodyLen := by
  simp [serializePrefix, bind_eq_ok, @eq_comm _ x]

theorem length_magic : magic.length = 8 := by decide

/-- The four fields of a file prefix, where the readers look for them. -/
theorem segAt_front {headerLen recordTableLen : UInt32} {bodyLen : UInt64}
    {prefixBytes : Bytes} (rest : Bytes)
    (h : serializePrefix formatVersion headerLen recordTableLen bodyLen = .ok prefixBytes) :
    prefixBytes.length = headerMinLen
      ∧ SegAt (prefixBytes ++ rest) 0 magic
      ∧ SegAt (prefixBytes ++ rest) prefixFormatVersionOffset (leU16 formatVersion)
      ∧ SegAt (prefixBytes ++ rest) prefixHeaderLenOffset (leU32 headerLen)
      ∧ SegAt (prefixBytes ++ rest) prefixRecordTableLenOffset (leU32 recordTableLen)
      ∧ SegAt (prefixBytes ++ rest) prefixBodyLenOffset (leU64 bodyLen)
      ∧ SegAt (prefixBytes ++ rest) headerMinLen rest := by
  obtain ⟨-, hx⟩ := serializePrefix_eq_ok.mp h
  have hlen : prefixBytes.length = headerMinLen := by
    rw [hx]
    simp [length_magic, headerMinLen]
  have hall := segAt_self (prefixBytes ++ rest)
  rw [segAt_append, hlen, Nat.zero_add] at hall
  obtain ⟨hpre, hrest⟩ := hall
  rw [hx] at hpre
  simp only [segAt_append, List.length_append, length_magic, length_leU16, length_leU32,
    Nat.zero_add] at hpre
  rw [← hx] at hpre
  obtain ⟨⟨⟨⟨hmagic, hversion⟩, hheader⟩, htable⟩, hbody⟩ := hpre
  exact ⟨hlen, hmagic, hversion, hheader, htable, hbody, hrest⟩

/-- A written header parses back, whatever body the file carries. -/
theorem parseHeader_of_serialize {header : VaultHeader} {headerBytes prefixBytes body : Bytes}
    {headerLen recordTableLen : UInt32} {bodyLen : UInt64}
    (hheader : serializeHeader header = .ok headerBytes)
    (hleading : serializePrefix formatVersion headerLen recordTableLen bodyLen = .ok prefixBytes)
    (hheaderLen : headerLen.toNat = headerBytes.length)
    (htableLen : recordTableLen.toNat ≤ bodyLen.toNat) (hbodyLen : bodyLen.toNat = body.length)
    (hmax : (prefixBytes ++ (headerBytes ++ body)).length ≤ usizeMax) :
    parseHeader (prefixBytes ++ (headerBytes ++ body)) = .ok header := by
  simp only [serializeHeader, bind_eq_ok, rejectIf_eq_ok, pure_eq_ok, Except.ok.injEq,
    Decidable.not_not] at hheader
  -- the writer's own checks, and its seven TLVs
  obtain ⟨-, hversion, -, hschema, -, haead, -, hkdfProfile, -, hpqc, -, -, -, hkdfId, i, hi, c, hc,
    kdfValue, hkdf, k, hk, a, ha, q, hq, s, hs, n, hn, rfl⟩ := hheader
  obtain ⟨hleadingLen, hmagic, hver, hhl, htl, hbl, hrest⟩ :=
    segAt_front ((i ++ c ++ k ++ a ++ q ++ s ++ n) ++ body) hleading
  generalize hheaderBytes : i ++ c ++ k ++ a ++ q ++ s ++ n = headerBytes at *
  generalize hbytes : prefixBytes ++ (headerBytes ++ body) = bytes at *
  -- where the header and the body end in the file
  have hlen : bytes.length = headerMinLen + headerBytes.length + body.length := by
    rw [← hbytes, List.length_append, List.length_append, hleadingLen, Nat.add_assoc]
  have hmin : headerMinLen = 26 := rfl
  have hkdfLen : kdfValue.length ≤ usizeMax := by
    have hkLen := length_of_writeHeaderTlv hk
    have htlvs := congrArg List.length hheaderBytes
    simp only [List.length_append] at htlvs
    omega
  have htlvs := (segAt_append.mp hrest).1
  rw [← hheaderBytes] at htlvs
  have hheaderEnd : headerMinLen + (i ++ c ++ k ++ a ++ q ++ s ++ n).length
      = headerMinLen + headerLen.toNat := by
    rw [hheaderBytes, hheaderLen]
  -- the TLV loop reads every field back
  have hloop := parseHeaderTlvs_of_written (parseKdfProfileParams_of_serialize hkdf hkdfLen)
    hi hc hk ha hq hs hn htlvs hheaderEnd (by omega)
  simp only [parseHeader, bind_eq_ok, rejectIf_eq_ok, okOr_eq_ok, sliceIndex_eq_ok,
    readU16Le_eq_ok, readU32Le_eq_ok, readU64Le_eq_ok, checkedAdd_eq_some, pure_eq_ok,
    Except.ok.injEq, Decidable.not_not]
  -- and the checks around it pass in turn
  refine ⟨(), by omega, magic, ⟨hmagic, rfl⟩, (), rfl, formatVersion, ⟨hver, by decide⟩, (), rfl,
    headerLen, ⟨hhl, by decide⟩, recordTableLen, ⟨htl, by decide⟩, bodyLen, ⟨hbl, by decide⟩,
    _, ⟨rfl, by omega⟩, (), by omega, _, ⟨rfl, by omega⟩, (), by omega, _, hloop, (), ?_, ?_⟩
  · rintro (h | h)
    · exact h rfl
    · omega
  · have hset := header.profileSet.eq_supported
    obtain ⟨vaultId, createdAt, version, schemaProfile, aeadProfile, kdfProfile, kdfParams,
      pqcProfile, headerNonce, profileSet⟩ := header
    simp only at hset hversion hschema haead hkdfProfile hpqc hkdfId ⊢
    subst hset hversion hschema haead hpqc hkdfProfile
    refine ⟨vaultId, rfl, createdAt, rfl, schemaMeissnerRecordsV2, rfl, aeadXchacha20Poly1305V1,
      rfl, kdfParams.profileId, rfl, kdfParams, rfl, headerNonce, rfl, supportedProfileSet, ?_, ?_⟩
    · rw [← hkdfId]
      rfl
    · rw [← hkdfId]
      rfl

end MeissnerSeal
