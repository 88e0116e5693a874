/-
The header section as a list of TLVs, and what the parser collects from it.

# The list

Header bytes are the writing of one list of TLVs (`HeaderTlv`), and the
loop of `parse_header` goes through that list (`tlvSection_iff`).

# What is collected

`HeaderFields.Says` relates the locals of the loop to what the list says at
each known tag. One TLV of a known tag is only accepted where nothing has
been said at its tag, and says its value (`applyHeaderTlv_known`); one of
an unknown tag changes nothing and is not critical
(`applyHeaderTlv_unknown`). A whole list by induction
(`applyHeaderTlvs_stated`).
-/
import MeissnerSeal.Vault.HeaderParse
import MeissnerSeal.Vault.KdfTlvs

namespace MeissnerSeal

open ByteCodec ExceptRules TlvList

-- ================================================================ the list

/-- A TLV of the header section. -/
structure HeaderTlv where
  tag : UInt16
  flags : UInt8
  value : Bytes
  deriving DecidableEq

def HeaderTlv.write (tlv : HeaderTlv) : Res Bytes := writeHeaderTlv tlv.tag tlv.flags tlv.value

/-- What the header says at a tag. -/
abbrev headerValues (tlvs : List HeaderTlv) (tag : UInt16) : List Bytes :=
  valuesOf HeaderTlv.tag HeaderTlv.value tag tlvs

theorem HeaderTlv.selfDelimiting : SelfDelimiting HeaderTlv.write where
  ne_nil := by
    intro tlv h
    obtain ⟨len, -, hx⟩ := writeHeaderTlv_eq_ok.mp h
    have hlength := congrArg List.length hx
    simp only [List.length_nil, List.length_append, length_leU16] at hlength
    omega
  cut := by
    rintro ⟨tag, flags, value⟩ ⟨tag', flags', value'⟩ x x' rest rest' h h' hsame
    obtain ⟨len, hlen, rfl⟩ := writeHeaderTlv_eq_ok.mp h
    obtain ⟨len', hlen', rfl⟩ := writeHeaderTlv_eq_ok.mp h'
    simp only [List.append_assoc] at hsame
    -- the fields in front of the value have fixed sizes, and the last is the value's
    obtain ⟨htag, hsame⟩ := leU16_append_inj hsame
    obtain ⟨hflags, hsame⟩ := List.append_inj hsame rfl
    obtain ⟨hlenEq, hsame⟩ := leU32_append_inj hsame
    rw [hlenEq] at hlen
    obtain ⟨hvalue, hrest⟩ := List.append_inj hsame (hlen.symm.trans hlen')
    rw [htag, hvalue, List.singleton_inj.mp hflags]
    exact ⟨rfl, hrest⟩

/-- The loop body over the list. -/
def applyHeaderTlvs (st : HeaderFields) : List HeaderTlv → Res HeaderFields
  | [] => .ok st
  | tlv :: tlvs => do
      let st ← applyHeaderTlv st ⟨tlv.tag, tlv.flags, tlv.value, 0⟩
      applyHeaderTlvs st tlvs

theorem tlvSection_iff {x : Bytes} {st st' : HeaderFields} :
    TlvSection x st st'
      ↔ ∃ tlvs, writeList HeaderTlv.write tlvs = .ok x ∧ applyHeaderTlvs st tlvs = .ok st' := by
  constructor
  · intro h
    induction h with
    | nil st => exact ⟨[], rfl, rfl⟩
    | @cons tag flags value x rest st st₁ st₂ hx happly _ ih =>
        obtain ⟨tlvs, hwrite, happlyRest⟩ := ih
        refine ⟨⟨tag, flags, value⟩ :: tlvs, writeList_cons_eq_ok.mpr
          ⟨x, rest, hx, hwrite, rfl⟩, ?_⟩
        rw [applyHeaderTlvs, happly]
        exact happlyRest
  · rintro ⟨tlvs, hwrite, happly⟩
    induction tlvs generalizing x st with
    | nil =>
        rw [writeList, Except.ok.injEq] at hwrite
        rw [applyHeaderTlvs, Except.ok.injEq] at happly
        subst hwrite happly
        exact .nil st
    | cons tlv tlvs ih =>
        obtain ⟨y, rest, hy, hrest, rfl⟩ := writeList_cons_eq_ok.mp hwrite
        rw [applyHeaderTlvs, bind_eq_ok] at happly
        obtain ⟨st₁, hfirst, hremaining⟩ := happly
        exact .cons hy hfirst (ih hrest hremaining)

-- ======================================================= what is collected

def knownHeaderTags : List UInt16 :=
  [tagVaultId, tagCreatedAt, tagKdfProfile, tagAeadProfile, tagPqcProfile, tagSchemaProfile,
    tagHeaderNonce]

/-- The bit `mark_seen_header_tag` keeps of a tag. -/
def headerTagBit (tag : UInt16) : UInt16 :=
  if tag = tagVaultId then 1
  else if tag = tagCreatedAt then 2
  else if tag = tagKdfProfile then 4
  else if tag = tagAeadProfile then 8
  else if tag = tagPqcProfile then 16
  else if tag = tagSchemaProfile then 32
  else if tag = tagHeaderNonce then 64
  else 0

theorem markSeenHeaderTag_eq (seen tag : UInt16) :
    markSeenHeaderTag seen tag
      = (seen ||| headerTagBit tag, (seen &&& headerTagBit tag) != 0) := by
  unfold markSeenHeaderTag headerTagBit
  split_ifs
  all_goals simp

/-- The locals of the loop hold what has been said at the known tags. -/
structure HeaderFields.Says (st : HeaderFields) (said : UInt16 → List Bytes) : Prop where
  vaultId : said tagVaultId = (st.vaultId.map List.Vector.toList).toList
  createdAt : said tagCreatedAt = (st.createdAt.map leU64).toList
  kdfParams : List.Forall₂ (fun value params => parseKdfProfileParams value = .ok params)
    (said tagKdfProfile) st.kdfParams.toList
  kdfProfile : st.kdfProfile = st.kdfParams.map HeaderKdfParams.profileId
  aeadProfile : said tagAeadProfile = (st.aeadProfile.map leU16).toList
  pqcProfile : said tagPqcProfile = [leU16 st.pqcProfile]
    ∨ said tagPqcProfile = [] ∧ st.pqcProfile = pqcNone
  schemaProfile : said tagSchemaProfile = (st.schemaProfile.map leU16).toList
  headerNonce : said tagHeaderNonce = (st.headerNonce.map List.Vector.toList).toList
  seen : ∀ tag ∈ knownHeaderTags, st.seenHeaderTags &&& headerTagBit tag = 0 ↔ said tag = []

theorem HeaderFields.says_init : ({} : HeaderFields).Says fun _ => [] where
  vaultId := rfl
  createdAt := rfl
  kdfParams := .nil
  kdfProfile := rfl
  aeadProfile := rfl
  pqcProfile := .inr ⟨rfl, rfl⟩
  schemaProfile := rfl
  headerNonce := rfl
  seen := fun tag _ => by simp

/-- Two known tags share no bit. -/
theorem headerTagBit_and : ∀ tag ∈ knownHeaderTags, ∀ tag' ∈ knownHeaderTags,
    headerTagBit tag' &&& headerTagBit tag = 0 ↔ tag' ≠ tag := by
  -- decided over the seven tags, not over all of `UInt16`
  have hall : knownHeaderTags.all (fun tag => knownHeaderTags.all fun tag' =>
      decide (headerTagBit tag' &&& headerTagBit tag = 0 ↔ tag' ≠ tag)) = true := by
    decide
  simpa only [List.all_eq_true, decide_eq_true_eq] using hall

/-- The mask, with the bit of a tag more. -/
theorem seen_of_marked {st : HeaderFields} {said : UInt16 → List Bytes} {tag : UInt16}
    {value : Bytes}
    (hstated : st.Says said) (hknown : tag ∈ knownHeaderTags) :
    ∀ tag' ∈ knownHeaderTags, (st.seenHeaderTags ||| headerTagBit tag) &&& headerTagBit tag' = 0
      ↔ sayMore said tag value tag' = [] := by
  intro tag' hknown'
  have hdistrib : (st.seenHeaderTags ||| headerTagBit tag) &&& headerTagBit tag'
      = st.seenHeaderTags &&& headerTagBit tag' ||| headerTagBit tag &&& headerTagBit tag' := by
    rw [← UInt16.toBitVec_inj]
    simp only [UInt16.toBitVec_and, UInt16.toBitVec_or]
    exact BitVec.and_or_distrib_right
  rw [hdistrib, UInt16.or_eq_zero_iff, hstated.seen tag' hknown',
    headerTagBit_and tag' hknown' tag hknown, sayMore]
  by_cases h : tag' = tag
  · rw [if_pos h]
    exact ⟨fun hboth => absurd h.symm hboth.2, fun hnil => absurd hnil (List.cons_ne_nil _ _)⟩
  · rw [if_neg h]
    exact ⟨fun hboth => hboth.1, fun hnil => ⟨hnil, fun heq => h heq.symm⟩⟩

/-- A TLV of a known tag is the first at its tag, and says its value there. -/
theorem applyHeaderTlv_known {st st' : HeaderFields} {said : UInt16 → List Bytes} {tlv : Tlv}
    (hstated : st.Says said) (hknown : tlv.tag ∈ knownHeaderTags)
    (h : applyHeaderTlv st tlv = .ok st') :
    said tlv.tag = [] ∧ st'.Says (sayMore said tlv.tag tlv.value) := by
  obtain ⟨tag, flags, value, stop⟩ := tlv
  have hfresh : (st.seenHeaderTags &&& headerTagBit tag != 0) = false → said tag = [] := by
    intro hbit
    rw [bne_eq_false_iff_eq] at hbit
    exact (hstated.seen tag hknown).mp hbit
  have hseen := @seen_of_marked st said tag value hstated hknown
  simp only [knownHeaderTags, List.mem_cons, List.not_mem_nil, or_false] at hknown
  simp only [applyHeaderTlv, markSeenHeaderTag_eq] at h
  -- one case per tag; what the others hold is as it was
  rcases hknown with rfl | rfl | rfl | rfl | rfl | rfl | rfl
  · rw [if_pos rfl] at h
    simp only [bind_eq_ok, rejectDuplicate_eq_ok, readArray_eq_ok, pure_eq_ok, Except.ok.injEq]
      at h
    obtain ⟨-, hdup, v, rfl, rfl⟩ := h
    exact ⟨hfresh hdup, ⟨rfl, hstated.createdAt, hstated.kdfParams, hstated.kdfProfile,
      hstated.aeadProfile, hstated.pqcProfile, hstated.schemaProfile, hstated.headerNonce, hseen⟩⟩
  · rw [if_neg (by decide), if_pos rfl] at h
    simp only [bind_eq_ok, rejectDuplicate_eq_ok, readTlvU64_eq_ok, pure_eq_ok, Except.ok.injEq]
      at h
    obtain ⟨-, hdup, v, rfl, rfl⟩ := h
    exact ⟨hfresh hdup, ⟨hstated.vaultId, rfl, hstated.kdfParams, hstated.kdfProfile,
      hstated.aeadProfile, hstated.pqcProfile, hstated.schemaProfile, hstated.headerNonce, hseen⟩⟩
  · rw [if_neg (by decide), if_neg (by decide), if_pos rfl] at h
    simp only [bind_eq_ok, rejectDuplicate_eq_ok, pure_eq_ok, Except.ok.injEq] at h
    obtain ⟨-, hdup, parsed, hparsed, rfl⟩ := h
    exact ⟨hfresh hdup, ⟨hstated.vaultId, hstated.createdAt, .cons hparsed .nil, rfl,
      hstated.aeadProfile, hstated.pqcProfile, hstated.schemaProfile, hstated.headerNonce, hseen⟩⟩
  · rw [if_neg (by decide), if_neg (by decide), if_neg (by decide), if_pos rfl] at h
    simp only [bind_eq_ok, rejectDuplicate_eq_ok, readTlvU16_eq_ok, pure_eq_ok, Except.ok.injEq]
      at h
    obtain ⟨-, hdup, v, rfl, rfl⟩ := h
    exact ⟨hfresh hdup, ⟨hstated.vaultId, hstated.createdAt, hstated.kdfParams,
      hstated.kdfProfile, rfl, hstated.pqcProfile, hstated.schemaProfile,
        hstated.headerNonce, hseen⟩⟩
  · rw [if_neg (by decide), if_neg (by decide), if_neg (by decide), if_neg (by decide),
      if_pos rfl] at h
    simp only [bind_eq_ok, rejectDuplicate_eq_ok, readTlvU16_eq_ok, pure_eq_ok, Except.ok.injEq]
      at h
    obtain ⟨-, hdup, v, rfl, rfl⟩ := h
    exact ⟨hfresh hdup, ⟨hstated.vaultId, hstated.createdAt, hstated.kdfParams, hstated.kdfProfile,
      hstated.aeadProfile, .inl rfl, hstated.schemaProfile, hstated.headerNonce, hseen⟩⟩
  · rw [if_neg (by decide), if_neg (by decide), if_neg (by decide), if_neg (by decide),
      if_neg (by decide), if_pos rfl] at h
    simp only [bind_eq_ok, rejectDuplicate_eq_ok, readTlvU16_eq_ok, pure_eq_ok, Except.ok.injEq]
      at h
    obtain ⟨-, hdup, v, rfl, rfl⟩ := h
    exact ⟨hfresh hdup, ⟨hstated.vaultId, hstated.createdAt, hstated.kdfParams, hstated.kdfProfile,
      hstated.aeadProfile, hstated.pqcProfile, rfl, hstated.headerNonce, hseen⟩⟩
  · rw [if_neg (by decide), if_neg (by decide), if_neg (by decide), if_neg (by decide),
      if_neg (by decide), if_neg (by decide), if_pos rfl] at h
    simp only [bind_eq_ok, rejectDuplicate_eq_ok, readArray_eq_ok, pure_eq_ok, Except.ok.injEq]
      at h
    obtain ⟨-, hdup, v, rfl, rfl⟩ := h
    exact ⟨hfresh hdup, ⟨hstated.vaultId, hstated.createdAt, hstated.kdfParams, hstated.kdfProfile,
      hstated.aeadProfile, hstated.pqcProfile, hstated.schemaProfile, rfl, hseen⟩⟩

/-- A TLV of any other tag is passed over, unless it is critical. -/
theorem applyHeaderTlv_unknown {st st' : HeaderFields} {tlv : Tlv}
    (hunknown : tlv.tag ∉ knownHeaderTags) (h : applyHeaderTlv st tlv = .ok st') :
    tlv.flags &&& criticalFlag = 0 ∧ st' = st := by
  simp only [knownHeaderTags, List.mem_cons, List.not_mem_nil, or_false, not_or] at hunknown
  obtain ⟨h1, h2, h3, h4, h5, h6, h7⟩ := hunknown
  unfold applyHeaderTlv at h
  simp only [if_neg h1, if_neg h2, if_neg h3, if_neg h4, if_neg h5, if_neg h6, if_neg h7] at h
  by_cases hcritical : tlv.flags &&& criticalFlag = 0
  · rw [if_neg (by simpa using hcritical), Except.ok.injEq] at h
    exact ⟨hcritical, h.symm⟩
  · rw [if_pos hcritical] at h
    cases h

/-- Only what is said at known tags matters. -/
theorem HeaderFields.Says.congr {st : HeaderFields} {said said' : UInt16 → List Bytes}
    (hstated : st.Says said) (hsame : ∀ tag ∈ knownHeaderTags, said' tag = said tag) :
    st.Says said' where
  vaultId := (hsame _ (by decide)).trans hstated.vaultId
  createdAt := (hsame _ (by decide)).trans hstated.createdAt
  kdfParams := by
    rw [hsame _ (by decide)]
    exact hstated.kdfParams
  kdfProfile := hstated.kdfProfile
  aeadProfile := (hsame _ (by decide)).trans hstated.aeadProfile
  pqcProfile := by
    rw [hsame _ (by decide)]
    exact hstated.pqcProfile
  schemaProfile := (hsame _ (by decide)).trans hstated.schemaProfile
  headerNonce := (hsame _ (by decide)).trans hstated.headerNonce
  seen := by
    intro tag hknown
    rw [hsame tag hknown]
    exact hstated.seen tag hknown

/-- The whole list: the locals hold what it says, and what is unknown is
not critical. -/
theorem applyHeaderTlvs_stated {done tlvs : List HeaderTlv} {st st' : HeaderFields}
    (hstated : st.Says (headerValues done)) (h : applyHeaderTlvs st tlvs = .ok st') :
    st'.Says (headerValues (done ++ tlvs))
      ∧ ∀ tlv ∈ tlvs, tlv.tag ∉ knownHeaderTags → tlv.flags &&& criticalFlag = 0 := by
  induction tlvs generalizing done st with
  | nil =>
      rw [applyHeaderTlvs, Except.ok.injEq] at h
      rw [← h, List.append_nil]
      refine ⟨hstated, fun tlv htlv => ?_⟩
      cases htlv
  | cons tlv tlvs ih =>
      rw [applyHeaderTlvs, bind_eq_ok] at h
      obtain ⟨st₁, hfirst, hrest⟩ := h
      have hsplit : done ++ tlv :: tlvs = (done ++ [tlv]) ++ tlvs := by
        rw [List.append_assoc, List.singleton_append]
      rw [hsplit]
      by_cases hknown : tlv.tag ∈ knownHeaderTags
      · obtain ⟨hfresh, hstated₁⟩ := applyHeaderTlv_known hstated hknown hfirst
        have hmore : ∀ tag ∈ knownHeaderTags, headerValues (done ++ [tlv]) tag
            = sayMore (headerValues done) tlv.tag tlv.value tag :=
              fun tag _ => valuesOf_snoc hfresh tag
        obtain ⟨hall, hcritical⟩ := ih (hstated₁.congr hmore) hrest
        refine ⟨hall, fun other hother hunknown => ?_⟩
        rcases List.mem_cons.mp hother with rfl | hother
        · exact absurd hknown hunknown
        · exact hcritical other hother hunknown
      · obtain ⟨hnotCritical, rfl⟩ := applyHeaderTlv_unknown hknown hfirst
        have hsame : ∀ tag ∈ knownHeaderTags,
            headerValues (done ++ [tlv]) tag = headerValues done tag := by
          intro tag htag
          have hne : tlv.tag ≠ tag := fun heq => hknown (heq ▸ htag)
          rw [headerValues, valuesOf_append, valuesOf_cons_of_ne hne, valuesOf_nil, List.append_nil]
        obtain ⟨hall, hcritical⟩ := ih (hstated.congr hsame) hrest
        refine ⟨hall, fun other hother hunknown => ?_⟩
        rcases List.mem_cons.mp hother with rfl | hother
        · exact hnotCritical
        · exact hcritical other hother hunknown

end MeissnerSeal
