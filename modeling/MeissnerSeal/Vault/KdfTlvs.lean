/-
The KDF block of a header as a list of parameters.

The value of the KDF TLV is a profile id, a length and a list of parameter
TLVs of its own (`KdfTlv`), which `parse_kdf_profile_params` goes through
in a loop like that of the header. Its parameters have a tag each, none
occurs twice and no other tag is passed over, so an accepted block says
each of its parameters once (`KdfBlock`). Their order is not looked at: a
block is the one the writer makes for its parameters exactly when they
stand in the writer's order (`KdfBlock.written_iff`).
-/
import MeissnerSeal.Lib.TlvList
import MeissnerSeal.Vault.HeaderRoundTrip

namespace MeissnerSeal

open ByteCodec ExceptRules TlvList

-- ================================================================ the list

/-- A TLV of the KDF block. -/
structure KdfTlv where
  tag : UInt16
  value : Bytes
  deriving DecidableEq

def KdfTlv.write (tlv : KdfTlv) : Res Bytes := writeKdfParamTlv tlv.tag tlv.value

/-- What the KDF block says at a tag. -/
abbrev kdfValues (tlvs : List KdfTlv) (tag : UInt16) : List Bytes :=
  valuesOf KdfTlv.tag KdfTlv.value tag tlvs

/-- A TLV says where it ends. -/
theorem KdfTlv.selfDelimiting : SelfDelimiting KdfTlv.write where
  ne_nil := by
    intro tlv h
    obtain ⟨len, -, hx⟩ := writeKdfParamTlv_eq_ok.mp h
    have hlength := congrArg List.length hx
    simp only [List.length_nil, List.length_append, length_leU16] at hlength
    omega
  cut := by
    rintro ⟨tag, value⟩ ⟨tag', value'⟩ x x' rest rest' h h' hsame
    obtain ⟨len, hlen, rfl⟩ := writeKdfParamTlv_eq_ok.mp h
    obtain ⟨len', hlen', rfl⟩ := writeKdfParamTlv_eq_ok.mp h'
    simp only [List.append_assoc] at hsame
    obtain ⟨htag, hsame⟩ := leU16_append_inj hsame
    obtain ⟨hlenEq, hsame⟩ := leU16_append_inj hsame
    rw [hlenEq] at hlen
    obtain ⟨hvalue, hrest⟩ := List.append_inj hsame (hlen.symm.trans hlen')
    rw [htag, hvalue]
    exact ⟨rfl, hrest⟩

def kdfParamTags : List UInt16 :=
  [tagKdfMCostKib, tagKdfTCost, tagKdfPLanes, tagKdfOutputLen, tagKdfArgon2Version]

/-- The loop body over the list. -/
def applyKdfParamTlvs (st : KdfParamFields) : List KdfTlv → Res KdfParamFields
  | [] => .ok st
  | tlv :: tlvs => do
      let st ← applyKdfParamTlv st ⟨tlv.tag, 0, tlv.value, 0⟩
      applyKdfParamTlvs st tlvs

/-- The loop goes through the parameters between its cursor and the end
of the block. -/
theorem parseKdfParamTlvs_of_ok {value : Bytes} {paramsEnd cursor stop : Nat}
    {st st' : KdfParamFields} (hcursor : cursor ≤ paramsEnd) (hlen : paramsEnd ≤ value.length)
    (hmax : paramsEnd ≤ usizeMax)
    (h : parseKdfParamTlvs value paramsEnd cursor st = .ok (stop, st')) :
    ∃ tlvs x, writeList KdfTlv.write tlvs = .ok x ∧ SegAt value cursor x
      ∧ cursor + x.length = paramsEnd ∧ applyKdfParamTlvs st tlvs = .ok st' := by
  induction cursor, st using parseKdfParamTlvs.induct value paramsEnd with
  | case1 cursor st hlt e hnext =>
      rw [parseKdfParamTlvs, if_pos hlt, hnext] at h
      cases h
  | case2 cursor st hlt tlv hnext e happly =>
      rw [parseKdfParamTlvs, if_pos hlt, hnext] at h
      simp only [happly, reduceCtorEq] at h
  | case3 cursor st hlt tlv hnext st₁ happly ih =>
      rw [parseKdfParamTlvs, if_pos hlt, hnext] at h
      simp only [happly] at h
      obtain ⟨hflags, x, hx, hseg, hstop, hend⟩ := (nextKdfParamTlv_eq_ok hmax).mp hnext
      obtain ⟨tlvs, rest, htlvs, hrest, hrestEnd, happlyRest⟩ := ih hend h
      rw [hstop] at hrest hrestEnd
      refine ⟨⟨tlv.tag, tlv.value⟩ :: tlvs, x ++ rest,
        writeList_cons_eq_ok.mpr ⟨x, rest, hx, htlvs, rfl⟩, segAt_append.mpr ⟨hseg, hrest⟩, ?_, ?_⟩
      · rw [List.length_append]
        omega
      · have hfirst : applyKdfParamTlv st ⟨tlv.tag, 0, tlv.value, 0⟩ = .ok st₁ := happly
        rw [applyKdfParamTlvs, hfirst]
        exact happlyRest
  | case4 cursor st hge =>
      rw [parseKdfParamTlvs, if_neg hge] at h
      injection h with h
      obtain ⟨rfl, rfl⟩ := Prod.mk.inj h
      have heq : cursor = paramsEnd := by omega
      subst heq
      exact ⟨[], [], rfl, segAt_nil hlen, rfl, rfl⟩

-- ======================================================= what is collected

/-- The locals of the loop hold what has been said at the parameter tags. -/
structure KdfParamFields.Says (st : KdfParamFields) (said : UInt16 → List Bytes) : Prop where
  mCostKib : said tagKdfMCostKib = (st.mCostKib.map leU32).toList
  tCost : said tagKdfTCost = (st.tCost.map leU32).toList
  pLanes : said tagKdfPLanes = (st.pLanes.map leU32).toList
  outputLen : ∃ len : Option UInt16, st.outputLen = len.map UInt16.toNat
    ∧ said tagKdfOutputLen = (len.map leU16).toList
  argon2Version : said tagKdfArgon2Version = (st.argon2Version.map leU32).toList

/-- No TLV read, nothing said. -/
theorem KdfParamFields.says_init : ({} : KdfParamFields).Says fun _ => [] :=
  ⟨rfl, rfl, rfl, ⟨none, rfl, rfl⟩, rfl⟩

theorem rejectDuplicate_eq_ok {isDuplicate : Bool} {error : String} {u : Unit} :
    rejectDuplicate isDuplicate error = .ok u ↔ isDuplicate = false := by
  rw [rejectDuplicate, rejectIf_eq_ok, Bool.not_eq_true]

/-- One parameter: its tag is one of the five and has said nothing yet, and
now says its value. -/
theorem applyKdfParamTlv_stated {st st' : KdfParamFields} {said : UInt16 → List Bytes} {tlv : Tlv}
    (hstated : st.Says said) (h : applyKdfParamTlv st tlv = .ok st') :
    tlv.tag ∈ kdfParamTags ∧ said tlv.tag = []
      ∧ st'.Says (sayMore said tlv.tag tlv.value) := by
  obtain ⟨tag, flags, value, stop⟩ := tlv
  -- a tag whose local is empty has said nothing
  have hempty : ∀ {α : Type} {o : Option α} {write : α → Bytes} {values : List Bytes},
      values = (o.map write).toList → o.isSome = false → values = [] := by
    intro α o write values hvalues hnone
    rw [Option.isSome_eq_false_iff, Option.isNone_iff_eq_none] at hnone
    rw [hvalues, hnone]
    rfl
  unfold applyKdfParamTlv at h
  split_ifs at h with h1 h2 h3 h4 h5
  · simp only [bind_eq_ok, rejectDuplicate_eq_ok, readKdfU32_eq_ok, pure_eq_ok,
      Except.ok.injEq] at h
    obtain ⟨-, hdup, v, rfl, rfl⟩ := h
    obtain rfl : tag = tagKdfMCostKib := h1
    exact ⟨(by decide : tagKdfMCostKib ∈ kdfParamTags), hempty hstated.mCostKib hdup,
      ⟨rfl, hstated.tCost, hstated.pLanes, hstated.outputLen, hstated.argon2Version⟩⟩
  · simp only [bind_eq_ok, rejectDuplicate_eq_ok, readKdfU32_eq_ok, pure_eq_ok,
      Except.ok.injEq] at h
    obtain ⟨-, hdup, v, rfl, rfl⟩ := h
    obtain rfl : tag = tagKdfTCost := h2
    exact ⟨(by decide : tagKdfTCost ∈ kdfParamTags), hempty hstated.tCost hdup,
      ⟨hstated.mCostKib, rfl, hstated.pLanes, hstated.outputLen, hstated.argon2Version⟩⟩
  · simp only [bind_eq_ok, rejectDuplicate_eq_ok, readKdfU32_eq_ok, pure_eq_ok,
      Except.ok.injEq] at h
    obtain ⟨-, hdup, v, rfl, rfl⟩ := h
    obtain rfl : tag = tagKdfPLanes := h3
    exact ⟨(by decide : tagKdfPLanes ∈ kdfParamTags), hempty hstated.pLanes hdup,
      ⟨hstated.mCostKib, hstated.tCost, rfl, hstated.outputLen, hstated.argon2Version⟩⟩
  · simp only [bind_eq_ok, rejectDuplicate_eq_ok, readKdfU16_eq_ok, pure_eq_ok,
      Except.ok.injEq] at h
    obtain ⟨-, hdup, v, rfl, rfl⟩ := h
    obtain rfl : tag = tagKdfOutputLen := h4
    obtain ⟨len, hlen, hsaid⟩ := hstated.outputLen
    rw [hlen, Option.isSome_map] at hdup
    exact ⟨(by decide : tagKdfOutputLen ∈ kdfParamTags), hempty hsaid hdup,
      ⟨hstated.mCostKib, hstated.tCost, hstated.pLanes, ⟨some v, rfl, rfl⟩, hstated.argon2Version⟩⟩
  · simp only [bind_eq_ok, rejectDuplicate_eq_ok, readKdfU32_eq_ok, pure_eq_ok,
      Except.ok.injEq] at h
    obtain ⟨-, hdup, v, rfl, rfl⟩ := h
    obtain rfl : tag = tagKdfArgon2Version := h5
    exact ⟨(by decide : tagKdfArgon2Version ∈ kdfParamTags), hempty hstated.argon2Version hdup,
      ⟨hstated.mCostKib, hstated.tCost, hstated.pLanes, hstated.outputLen, rfl⟩⟩

/-- The whole list. -/
theorem applyKdfParamTlvs_stated {done tlvs : List KdfTlv} {st st' : KdfParamFields}
    (hstated : st.Says (kdfValues done)) (h : applyKdfParamTlvs st tlvs = .ok st') :
    st'.Says (kdfValues (done ++ tlvs)) ∧ ∀ tlv ∈ tlvs, tlv.tag ∈ kdfParamTags := by
  induction tlvs generalizing done st with
  | nil =>
      rw [applyKdfParamTlvs, Except.ok.injEq] at h
      rw [← h, List.append_nil]
      refine ⟨hstated, fun tlv htlv => ?_⟩
      cases htlv
  | cons tlv tlvs ih =>
      rw [applyKdfParamTlvs, bind_eq_ok] at h
      obtain ⟨st₁, hfirst, hrest⟩ := h
      obtain ⟨hknown, hfresh, hstated₁⟩ := applyKdfParamTlv_stated hstated hfirst
      have hmore : kdfValues (done ++ [tlv]) = sayMore (kdfValues done) tlv.tag tlv.value :=
        funext fun tag => valuesOf_snoc hfresh tag
      rw [← hmore] at hstated₁
      obtain ⟨hall, hrestKnown⟩ := ih hstated₁ hrest
      rw [List.append_assoc, List.singleton_append] at hall
      refine ⟨hall, fun other hother => ?_⟩
      rcases List.mem_cons.mp hother with rfl | hother
      · exact hknown
      · exact hrestKnown other hother

-- =============================================================== the block

/-- The parameters a block's TLVs stand for. -/
def kdfBlockBytes (profileId : UInt16) (len : UInt32) (x : Bytes) : Bytes :=
  leU16 profileId ++ leU32 len ++ x

/-- The parameters of a block: they tile what its length counts. -/
def KdfTiles (value : Bytes) (tlvs : List KdfTlv) : Prop :=
  ∃ profileId len x, value = kdfBlockBytes profileId len x ∧ len.toNat = x.length
    ∧ writeList KdfTlv.write tlvs = .ok x

/-- A block says each of its parameters once, and nothing else. -/
structure KdfBlock (value : Bytes) (params : HeaderKdfParams) (tlvs : List KdfTlv) : Prop where
  tiles : ∃ len x, value = kdfBlockBytes params.profileId len x ∧ len.toNat = x.length
    ∧ writeList KdfTlv.write tlvs = .ok x
  known : ∀ tlv ∈ tlvs, tlv.tag ∈ kdfParamTags
  mCostKib : kdfValues tlvs tagKdfMCostKib = [leU32 params.argon2.mCostKib]
  tCost : kdfValues tlvs tagKdfTCost = [leU32 params.argon2.tCost]
  pLanes : kdfValues tlvs tagKdfPLanes = [leU32 params.argon2.pLanes]
  outputLen : ∃ len : UInt16, len.toNat = params.argon2.outputLen
    ∧ kdfValues tlvs tagKdfOutputLen = [leU16 len]
  argon2Version : kdfValues tlvs tagKdfArgon2Version = [leU32 params.argon2Version]
  supported : params.profileId = kdfArgon2idV1 ∧ params.argon2Version = argon2Version0x13
    ∧ ∃ u, validateArgon2Params params.argon2 = .ok u

/-- A block that is accepted is its head and the TLVs the loop cut out, and
the parameters are what these say. -/
theorem kdfBlock_of_parse {value : Bytes} {params : HeaderKdfParams}
    (h : parseKdfProfileParams value = .ok params) : ∃ tlvs, KdfBlock value params tlvs := by
  have hhead : kdfProfileHeaderLen = 6 := rfl
  simp only [parseKdfProfileParams, bind_eq_ok, rejectIf_eq_ok, okOr_eq_ok, sliceIndex_eq_ok,
    readArray_eq_ok, checkedAdd_eq_some, pure_eq_ok, Except.ok.injEq, Decidable.not_not, hhead] at h
  obtain ⟨-, hlong, _, ⟨hid, -⟩, id, rfl, -, hprofile, _, ⟨hparamsLen, -⟩, len, rfl, _, ⟨rfl, hmax⟩,
    -, hend, ⟨cursor, st⟩, hloop, h⟩ := h
  obtain ⟨-, -, version, hversion, -, hsupported, mCost, hm, tCost, ht, pLanes, hp, outputLen, ho,
    u, hvalid, rfl⟩ := h
  obtain ⟨tlvs, x, hx, hseg, hxEnd, happly⟩ :=
    parseKdfParamTlvs_of_ok (by omega) (by omega) hmax hloop
  obtain ⟨hstated, hknown⟩ := @applyKdfParamTlvs_stated [] tlvs _ _ KdfParamFields.says_init happly
  rw [List.nil_append] at hstated
  have hvalue : value = kdfBlockBytes (u16OfLE id) (u32OfLE len) x := by
    have hall : SegAt value 0 (kdfBlockBytes (u16OfLE id) (u32OfLE len) x) := by
      simp only [kdfBlockBytes, leU16_u16OfLE, leU32_u32OfLE, segAt_append, List.length_append,
        List.Vector.toList_length]
      exact ⟨⟨hid, hparamsLen⟩, hseg⟩
    refine (segAt_self value).unique hall ?_
    simp only [kdfBlockBytes, List.length_append, length_leU16, length_leU32]
    omega
  refine ⟨tlvs, ⟨⟨u32OfLE len, x, hvalue, by omega, hx⟩, hknown, ?_, ?_, ?_, ?_, ?_,
    ⟨hprofile, hsupported, u, hvalid⟩⟩⟩
  · rw [hstated.mCostKib, hm]
    rfl
  · rw [hstated.tCost, ht]
    rfl
  · rw [hstated.pLanes, hp]
    rfl
  · obtain ⟨o, hlen, hsaid⟩ := hstated.outputLen
    rw [ho] at hlen
    cases o with
    | none => cases hlen
    | some o =>
        rw [Option.map_some, Option.some.injEq] at hlen
        exact ⟨o, hlen.symm, hsaid⟩
  · rw [hstated.argon2Version, hversion]
    rfl

/-- A block's bytes have one list of parameters. -/
theorem kdfBlockBytes_tlvs {profileId profileId' : UInt16} {len len' : UInt32} {x x' : Bytes}
    {tlvs tlvs' : List KdfTlv}
    (hsame : kdfBlockBytes profileId len x = kdfBlockBytes profileId' len' x')
    (h : writeList KdfTlv.write tlvs = .ok x) (h' : writeList KdfTlv.write tlvs' = .ok x') :
    tlvs = tlvs' := by
  unfold kdfBlockBytes at hsame
  have hheads : (leU16 profileId ++ leU32 len).length
    = (leU16 profileId' ++ leU32 len').length := by
    simp only [List.length_append, length_leU16, length_leU32]
  obtain ⟨-, hx⟩ := List.append_inj hsame hheads
  rw [hx] at h
  exact writeList_injective KdfTlv.selfDelimiting h h'

/-- There is one way to cut a block into TLVs. -/
theorem KdfTiles.unique {value : Bytes} {tlvs tlvs' : List KdfTlv} (h : KdfTiles value tlvs)
    (h' : KdfTiles value tlvs') : tlvs = tlvs' := by
  obtain ⟨profileId, len, x, hvalue, -, hx⟩ := h
  obtain ⟨profileId', len', x', hvalue', -, hx'⟩ := h'
  exact kdfBlockBytes_tlvs (hvalue.symm.trans hvalue') hx hx'

/-- What was parsed was cut so. -/
theorem KdfBlock.kdfTiles {value : Bytes} {params : HeaderKdfParams} {tlvs : List KdfTlv}
    (h : KdfBlock value params tlvs) : KdfTiles value tlvs := by
  obtain ⟨len, x, hvalue, hlen, hx⟩ := h.tiles
  exact ⟨params.profileId, len, x, hvalue, hlen, hx⟩

/-- The parameters the writer writes, in its order. -/
def writtenKdfTlvs (params : HeaderKdfParams) (outputLen : UInt16) : List KdfTlv :=
  [⟨tagKdfMCostKib, leU32 params.argon2.mCostKib⟩, ⟨tagKdfTCost, leU32 params.argon2.tCost⟩,
    ⟨tagKdfPLanes, leU32 params.argon2.pLanes⟩, ⟨tagKdfOutputLen, leU16 outputLen⟩,
    ⟨tagKdfArgon2Version, leU32 params.argon2Version⟩]

/-- The writer writes its five TLVs in a fixed order. -/
theorem serializeKdfProfileParams_eq_ok {params : HeaderKdfParams} {value : Bytes} :
    serializeKdfProfileParams params = .ok value
      ↔ (params.profileId = kdfArgon2idV1 ∧ params.argon2Version = argon2Version0x13
          ∧ ∃ u, validateArgon2Params params.argon2 = .ok u)
        ∧ ∃ (outputLen : UInt16) (len : UInt32) (x : Bytes),
          outputLen.toNat = params.argon2.outputLen
          ∧ writeList KdfTlv.write (writtenKdfTlvs params outputLen) = .ok x
          ∧ len.toNat = x.length ∧ value = kdfBlockBytes params.profileId len x := by
  simp only [serializeKdfProfileParams, lenToU32, bind_eq_ok, rejectIf_eq_ok, okOr_eq_ok,
    u16TryFrom_eq_some, u32TryFrom_eq_some, pure_eq_ok, Except.ok.injEq, Decidable.not_not,
    writtenKdfTlvs, writeList_cons_eq_ok, KdfTlv.write]
  constructor
  · rintro ⟨-, hprofile, -, hversion, u, hvalid, m, hm, t, ht, p, hp, o, ho, o', ho', v, hv, len,
      hlen, rfl⟩
    refine ⟨⟨hprofile, hversion, u, hvalid⟩, o, len, _, ho, ⟨m, _, hm, ⟨t, _, ht, ⟨p, _, hp,
      ⟨o', _, ho', ⟨v, [], hv, rfl, rfl⟩, rfl⟩, rfl⟩, rfl⟩, rfl⟩, ?_, ?_⟩
    · rw [hlen, List.append_nil, List.append_assoc, List.append_assoc, List.append_assoc]
    · rw [kdfBlockBytes, List.append_nil, List.append_assoc m, List.append_assoc m,
        List.append_assoc m, List.append_assoc t, List.append_assoc t, List.append_assoc p]
  · rintro ⟨⟨hprofile, hversion, u, hvalid⟩, o, len, _, ho, ⟨m, _, hm, ⟨t, _, ht, ⟨p, _, hp,
      ⟨o', _, ho', ⟨v, _, hv, hnil, rfl⟩, rfl⟩, rfl⟩, rfl⟩, rfl⟩, hlen, rfl⟩
    rw [writeList, Except.ok.injEq] at hnil
    subst hnil
    refine ⟨(), hprofile, (), hversion, u, hvalid, m, hm, t, ht, p, hp, o, ho, o', ho', v, hv, len,
      ?_, ?_⟩
    · rw [hlen, List.append_nil, List.append_assoc, List.append_assoc, List.append_assoc]
    · rw [kdfBlockBytes, List.append_nil, List.append_assoc m, List.append_assoc m,
        List.append_assoc m, List.append_assoc t, List.append_assoc t, List.append_assoc p]

/-- A block that parses is the writer's for its parameters exactly when the
parameters stand in the writer's order. -/
theorem KdfBlock.written_iff {value : Bytes} {params : HeaderKdfParams} {tlvs : List KdfTlv}
    (hblock : KdfBlock value params tlvs) :
    serializeKdfProfileParams params = .ok value ↔ tlvs.map KdfTlv.tag = kdfParamTags := by
  obtain ⟨len, x, hvalue, hlen, hx⟩ := hblock.tiles
  constructor
  · intro h
    obtain ⟨-, outputLen, len', x', -, hx', -, hvalue'⟩ := serializeKdfProfileParams_eq_ok.mp h
    rw [kdfBlockBytes_tlvs (hvalue.symm.trans hvalue') hx hx']
    rfl
  · intro hordered
    obtain ⟨outputLen, houtputLen, hsaid⟩ := hblock.outputLen
    have htlvs : tlvs = writtenKdfTlvs params outputLen := by
      refine @eq_of_values _ _ _ _ _ KdfTlv.tag KdfTlv.value KdfTlv.tag ?_ id tlvs _ hordered ?_ ?_
      · rintro ⟨tag, value⟩ ⟨tag', value'⟩ htag hvalue
        exact congrArg₂ KdfTlv.mk htag hvalue
      · rw [hordered]
        decide
      · intro tag htag
        rw [hordered] at htag
        simp only [kdfParamTags, List.mem_cons, List.not_mem_nil, or_false] at htag
        rcases htag with rfl | rfl | rfl | rfl | rfl
        · exact hblock.mCostKib
        · exact hblock.tCost
        · exact hblock.pLanes
        · exact hsaid
        · exact hblock.argon2Version
    rw [htlvs] at hx
    exact serializeKdfProfileParams_eq_ok.mpr
      ⟨hblock.supported, outputLen, len, x, houtputLen, hx, hlen, hvalue⟩

end MeissnerSeal
