/-
The parsers of the vault format stay inside the bytes they are given.

`.panic` marks an index or a slice outside the input and a `usize` sum or
difference that overflows. Each operation that could end there has one rule
(`usizeAdd_peel`, `sliceIndex_peel`, …) that asks for its bound; a parser is
gone through from its first line to its last, and what each check leaves is
the bound of a later step. The loops need no more than that their cursor has
not passed the end the loop runs to.
-/
import MeissnerSeal.Vault.SealedTable

namespace MeissnerSeal

open ByteCodec ExceptRules

/-- Nothing is read outside the input, and no `usize` overflows. -/
abbrev InBounds {α : Type} (x : Res α) : Prop := Avoids .panic x

variable {α : Type} {bytes : Bytes} {message : String}

theorem formatError_ne_panic (message : String) : formatError message ≠ .panic := nofun

-- ================================================================ steps

/-- Behind a check the parser may rely on what was checked. -/
theorem rejectIf_peel {bad : Prop} [Decidable bad] {f : Unit → Res α}
    (h : ¬ bad → InBounds (f ())) : InBounds (rejectIf bad (formatError message) >>= f) :=
  (avoids_rejectIf (formatError_ne_panic message)).bind fun _ hok => h (rejectIf_eq_ok.mp hok)

theorem okOr_peel {β : Type} {o : Option β} {f : β → Res α}
    (h : ∀ b, o = some b → InBounds (f b)) : InBounds (okOr o (formatError message) >>= f) :=
  (avoids_okOr (formatError_ne_panic message)).bind fun b hok => h b (okOr_eq_ok.mp hok)

/-- A checked sum that overflows is an error of the format, never a panic. -/
theorem checkedAdd_peel {a b : Nat} {f : Nat → Res α}
    (h : a + b ≤ usizeMax → InBounds (f (a + b))) :
    InBounds (okOr (checkedAdd a b) (formatError message) >>= f) := by
  refine okOr_peel fun c hc => ?_
  obtain ⟨rfl, hle⟩ := checkedAdd_eq_some.mp hc
  exact h hle

/-- A plain sum panics on overflow, so its bound is owed here. -/
theorem usizeAdd_peel {a b : Nat} {f : Nat → Res α} (hle : a + b ≤ usizeMax)
    (h : InBounds (f (a + b))) : InBounds (usizeAdd a b >>= f) := by
  rw [usizeAdd_eq_ok.mpr ⟨rfl, hle⟩]
  exact h

/-- A plain difference panics below zero. -/
theorem usizeSub_peel {a b : Nat} {f : Nat → Res α} (hle : b ≤ a) (h : InBounds (f (a - b))) :
    InBounds (usizeSub a b >>= f) := by
  rw [usizeSub_eq_ok.mpr ⟨rfl, hle⟩]
  exact h

theorem index_peel {i : Nat} {f : UInt8 → Res α} (hi : i < bytes.length)
    (h : ∀ b, InBounds (f b)) : InBounds (index bytes i >>= f) := by
  rw [index, List.getElem?_eq_getElem hi]
  exact h _

/-- `bytes[start..stop]`, whose length the rest of the parser may use. -/
theorem sliceIndex_peel {start stop : Nat} {f : Bytes → Res α} (hle : start ≤ stop)
    (hstop : stop ≤ bytes.length) (h : ∀ x, x.length = stop - start → InBounds (f x)) :
    InBounds (sliceIndex bytes start stop >>= f) := by
  obtain ⟨x, hlen, hx⟩ : ∃ x, x.length = stop - start ∧ SegAt bytes start x :=
    exists_segAt (by omega)
  rw [sliceIndex_eq_ok.mpr ⟨hx, by omega⟩]
  exact h x hlen

theorem readArray_inBounds (n : Nat) (bytes : Bytes) (message : String) :
    InBounds (readArray n bytes message) := by
  unfold readArray
  split
  · exact avoids_ok _ _
  · exact avoids_error (formatError_ne_panic message)

theorem readArray_peel {n : Nat} {f : U8Array n → Res α} (h : ∀ v, InBounds (f v)) :
    InBounds (readArray n bytes message >>= f) :=
  (readArray_inBounds n bytes message).bind fun v _ => h v

theorem readArrayAt_inBounds (n offset : Nat) : InBounds (readArrayAt n bytes offset) :=
  okOr_peel fun _ _ => okOr_peel fun _ _ => readArray_inBounds n _ _

/-- A field that is read lies in the input. -/
theorem readArrayAt_peel {n offset : Nat} {f : U8Array n → Res α}
    (h : ∀ v, offset + n ≤ bytes.length → offset + n ≤ usizeMax → InBounds (f v)) :
    InBounds (readArrayAt n bytes offset >>= f) := by
  refine (readArrayAt_inBounds n offset).bind fun v hv => ?_
  obtain ⟨hseg, hmax⟩ := readArrayAt_eq_ok.mp hv
  have hle := hseg.le
  rw [List.Vector.toList_length] at hle
  exact h v hle hmax

/-- The readers at an offset check it themselves, and their
callers learn it. -/
theorem readU16Le_peel {offset : Nat} {f : UInt16 → Res α}
    (h : ∀ v, offset + 2 ≤ bytes.length → offset + 2 ≤ usizeMax → InBounds (f v)) :
    InBounds (readU16Le bytes offset >>= f) := by
  rw [readU16Le, bind_assoc]
  exact readArrayAt_peel fun v => h (u16OfLE v)

theorem readU32Le_peel {offset : Nat} {f : UInt32 → Res α}
    (h : ∀ v, offset + 4 ≤ bytes.length → offset + 4 ≤ usizeMax → InBounds (f v)) :
    InBounds (readU32Le bytes offset >>= f) := by
  rw [readU32Le, bind_assoc]
  exact readArrayAt_peel fun v => h (u32OfLE v)

theorem readU64Le_peel {offset : Nat} {f : UInt64 → Res α}
    (h : ∀ v, offset + 8 ≤ bytes.length → offset + 8 ≤ usizeMax → InBounds (f v)) :
    InBounds (readU64Le bytes offset >>= f) := by
  rw [readU64Le, bind_assoc]
  exact readArrayAt_peel fun v => h (u64OfLE v)

-- =============================================================== frames

/-- The frame is read left to right: each length field is checked against
the rest of the input before what it counts is sliced off. -/
theorem parseRecordFrame_inBounds (len : UInt32) (aeadProfile : UInt16) :
    InBounds (parseRecordFrame bytes len aeadProfile) := by
  have hlt := len.toNat_lt
  have hmax : 2 ^ 33 ≤ usizeMax := by decide
  have hfixed : recordFrameFixedPrefixLen = 37 := rfl
  have h24 : xchacha20NonceLen = 24 := rfl
  unfold parseRecordFrame
  refine rejectIf_peel fun hlen => sliceIndex_peel (by omega) (by omega) fun frame hframe => ?_
  refine readU16Le_peel fun version _ _ => rejectIf_peel fun _ => ?_
  refine readArrayAt_peel fun recordId _ _ => usizeAdd_peel (by omega) ?_
  refine readArrayAt_peel fun revisionId _ _ => usizeAdd_peel (by omega) ?_
  refine readU16Le_peel fun profile _ _ => usizeAdd_peel (by omega) (rejectIf_peel fun _ => ?_)
  -- the nonce length is the last byte of the fixed prefix
  refine index_peel (by omega) fun nonceLen =>
    usizeAdd_peel (by omega) (rejectIf_peel fun hnonce => ?_)
  refine readArrayAt_peel fun nonce _ hnonceEnd => usizeAdd_peel (by omega) ?_
  refine readU32Le_peel fun aadLen _ _ => usizeAdd_peel (by omega) ?_
  refine checkedAdd_peel fun _ => rejectIf_peel fun haad => ?_
  refine readU32Le_peel fun ctLen _ _ => usizeAdd_peel (by omega) (rejectIf_peel fun _ => ?_)
  refine checkedAdd_peel fun _ => rejectIf_peel fun hct => rejectIf_peel fun _ => ?_
  refine sliceIndex_peel (by omega) (by omega) fun aad _ => readArray_peel fun storedAad => ?_
  exact sliceIndex_peel (by omega) (by omega) fun ciphertext _ => avoids_ok _ _

theorem readU32At_inBounds (offset : Nat) : InBounds (readU32At bytes offset) :=
  okOr_peel fun _ _ => okOr_peel fun _ _ => readArray_peel fun _ => avoids_ok _ _

/-- The engine's walk over the length fields of a frame checks every sum. -/
theorem recordFrameEndOffset_inBounds (offset : Nat) :
    InBounds (recordFrameEndOffset bytes offset) := by
  unfold recordFrameEndOffset
  refine okOr_peel fun fixedEnd _ => rejectIf_peel fun _ => okOr_peel fun nonceLenOffset _ => ?_
  refine okOr_peel fun nonceLen _ => okOr_peel fun aadLenOffset _ => ?_
  refine (readU32At_inBounds aadLenOffset).bind fun aadLen _ => ?_
  refine okOr_peel fun _ _ => okOr_peel fun ctLenOffset _ => ?_
  refine (readU32At_inBounds ctLenOffset).bind fun ctLen _ => okOr_peel fun frameEnd _ => ?_
  exact avoids_okOr (formatError_ne_panic _)

theorem recordFrameLenAt_inBounds (offset : Nat) : InBounds (recordFrameLenAt bytes offset) :=
  (recordFrameEndOffset_inBounds offset).bind fun _ _ =>
    okOr_peel fun _ _ => avoids_okOr (formatError_ne_panic _)

/-- `bytes.get(start..stop)`, which asks for nothing and tells its length. -/
theorem slice_peel {start stop : Nat} {f : Bytes → Res α}
    (h : ∀ x, stop = start + x.length → stop ≤ bytes.length → InBounds (f x)) :
    InBounds (okOr (slice? bytes start stop) (formatError message) >>= f) := by
  refine okOr_peel fun x hx => ?_
  obtain ⟨hseg, hstop⟩ := slice?_eq_some_iff.mp hx
  exact h x hstop (hstop ▸ hseg.le)

theorem parseItemRecordFrameEnvelope_inBounds : InBounds (parseItemRecordFrameEnvelope bytes) := by
  have h24 : xchacha20NonceLen = 24 := rfl
  unfold parseItemRecordFrameEnvelope
  refine readArrayAt_peel fun rekWrapNonce _ _ => usizeAdd_peel (by omega) ?_
  refine readU32Le_peel fun wrappedRekLen _ _ => usizeAdd_peel (by omega) ?_
  refine rejectIf_peel fun _ => checkedAdd_peel fun _ => slice_peel fun wrappedRek _ _ => ?_
  refine readArrayAt_peel fun payloadNonce _ _ => usizeAdd_peel (by omega) ?_
  refine readU32Le_peel fun payloadLen _ _ => usizeAdd_peel (by omega) ?_
  refine rejectIf_peel fun _ => checkedAdd_peel fun _ => slice_peel fun payload _ _ => ?_
  exact rejectIf_peel fun _ => avoids_ok _ _

-- =============================================================== header

/-- One TLV of the KDF block, from a cursor that has not passed the end
of the block. -/
theorem nextKdfParamTlv_inBounds {paramsEnd cursor : Nat} (hcursor : cursor ≤ paramsEnd)
    (hend : paramsEnd ≤ bytes.length) (hmax : paramsEnd ≤ usizeMax) :
    InBounds (nextKdfParamTlv bytes paramsEnd cursor) := by
  have h4 : kdfParamTlvHeaderLen = 4 := rfl
  unfold nextKdfParamTlv
  refine usizeSub_peel hcursor (rejectIf_peel fun hroom => ?_)
  refine usizeAdd_peel (by omega) (usizeAdd_peel (by omega) ?_)
  refine sliceIndex_peel (by omega) (by omega) fun _ _ => readArray_peel fun tag => ?_
  refine sliceIndex_peel (by omega) (by omega) fun _ _ => readArray_peel fun len => ?_
  refine usizeAdd_peel (by omega) (checkedAdd_peel fun _ => rejectIf_peel fun _ => ?_)
  exact sliceIndex_peel (by omega) (by omega) fun _ _ => avoids_ok _ _

theorem readTlvU16_inBounds (value : Bytes) (error : String) : InBounds (readTlvU16 value error) :=
  rejectIf_peel fun _ => readArray_peel fun _ => avoids_ok _ _

theorem readKdfU32_inBounds (value : Bytes) (error : String) : InBounds (readKdfU32 value error) :=
  rejectIf_peel fun _ => readArray_peel fun _ => avoids_ok _ _

theorem readTlvU64_inBounds (value : Bytes) (error : String) : InBounds (readTlvU64 value error) :=
  rejectIf_peel fun _ => readArray_peel fun _ => avoids_ok _ _

/-- The match on a tag reads the value it was given through readers that
check its length. -/
theorem applyKdfParamTlv_inBounds (st : KdfParamFields) (tlv : Tlv) :
    InBounds (applyKdfParamTlv st tlv) := by
  unfold applyKdfParamTlv
  split_ifs
  · exact rejectIf_peel fun _ => Avoids.bind (readKdfU32_inBounds _ _) fun _ _ => avoids_ok _ _
  · exact rejectIf_peel fun _ => Avoids.bind (readKdfU32_inBounds _ _) fun _ _ => avoids_ok _ _
  · exact rejectIf_peel fun _ => Avoids.bind (readKdfU32_inBounds _ _) fun _ _ => avoids_ok _ _
  · exact rejectIf_peel fun _ => Avoids.bind (readTlvU16_inBounds _ _) fun _ _ => avoids_ok _ _
  · exact rejectIf_peel fun _ => Avoids.bind (readKdfU32_inBounds _ _) fun _ _ => avoids_ok _ _
  · exact avoids_error (formatError_ne_panic _)

/-- The loop keeps its cursor within the parameters. -/
theorem parseKdfParamTlvs_inBounds {paramsEnd cursor : Nat} {st : KdfParamFields}
    (hcursor : cursor ≤ paramsEnd) (hend : paramsEnd ≤ bytes.length) (hmax : paramsEnd ≤ usizeMax) :
    InBounds (parseKdfParamTlvs bytes paramsEnd cursor st) := by
  induction cursor, st using parseKdfParamTlvs.induct bytes paramsEnd with
  | case1 cursor st hlt e hnext =>
      have hbounds := nextKdfParamTlv_inBounds hcursor hend hmax
      rw [hnext] at hbounds
      rw [parseKdfParamTlvs, if_pos hlt, hnext]
      exact avoids_error (avoids_error_iff.mp hbounds)
  | case2 cursor st hlt tlv hnext e happly =>
      have hbounds := applyKdfParamTlv_inBounds st tlv
      rw [happly] at hbounds
      rw [parseKdfParamTlvs, if_pos hlt, hnext]
      simp only [happly]
      exact avoids_error (avoids_error_iff.mp hbounds)
  | case3 cursor st hlt tlv hnext st' happly ih =>
      rw [parseKdfParamTlvs, if_pos hlt, hnext]
      simp only [happly]
      exact ih (nextKdfParamTlv_lt hnext).2
  | case4 cursor st hnot =>
      rw [parseKdfParamTlvs, if_neg hnot]
      exact avoids_ok _ _

theorem validateArgon2Params_inBounds (params : Argon2Params) :
    InBounds (validateArgon2Params params) := by
  unfold validateArgon2Params
  refine rejectIf_peel fun _ => rejectIf_peel fun _ => rejectIf_peel fun _ => ?_
  refine rejectIf_peel fun _ => rejectIf_peel fun _ => rejectIf_peel fun _ => ?_
  refine rejectIf_peel fun _ => rejectIf_peel fun _ => rejectIf_peel fun _ => ?_
  exact avoids_rejectIf (formatError_ne_panic _)

theorem parseKdfProfileParams_inBounds : InBounds (parseKdfProfileParams bytes) := by
  have h6 : kdfProfileHeaderLen = 6 := rfl
  unfold parseKdfProfileParams
  refine rejectIf_peel fun hlen => ?_
  refine sliceIndex_peel (by omega) (by omega) fun _ _ => readArray_peel fun profileId => ?_
  refine rejectIf_peel fun _ => ?_
  refine sliceIndex_peel (by omega) (by omega) fun _ _ => readArray_peel fun paramsLen => ?_
  refine checkedAdd_peel fun hmax => rejectIf_peel fun hend => ?_
  refine (parseKdfParamTlvs_inBounds (by omega) (by omega) hmax).bind fun filled _ => ?_
  refine rejectIf_peel fun _ => okOr_peel fun version _ => rejectIf_peel fun _ => ?_
  refine okOr_peel fun _ _ => okOr_peel fun _ _ => okOr_peel fun _ _ => okOr_peel fun _ _ => ?_
  exact (validateArgon2Params_inBounds _).bind fun _ _ => avoids_ok _ _

/-- One TLV of the header, from a cursor that has not passed the end
of the header. -/
theorem nextHeaderTlv_inBounds {headerEnd cursor : Nat} (hcursor : cursor ≤ headerEnd)
    (hend : headerEnd ≤ bytes.length) (hmax : headerEnd ≤ usizeMax) :
    InBounds (nextHeaderTlv bytes headerEnd cursor) := by
  have h7 : tlvHeaderLen = 7 := rfl
  unfold nextHeaderTlv
  refine usizeSub_peel hcursor (rejectIf_peel fun hroom => ?_)
  refine readU16Le_peel fun tag _ _ => usizeAdd_peel (by omega) ?_
  refine index_peel (by omega) fun flags => usizeAdd_peel (by omega) ?_
  refine readU32Le_peel fun len _ _ => usizeAdd_peel (by omega) ?_
  refine checkedAdd_peel fun _ => rejectIf_peel fun _ => ?_
  exact sliceIndex_peel (by omega) (by omega) fun _ _ => avoids_ok _ _

theorem applyHeaderTlv_inBounds (st : HeaderFields) (tlv : Tlv) :
    InBounds (applyHeaderTlv st tlv) := by
  unfold applyHeaderTlv
  split_ifs
  · exact rejectIf_peel fun _ => readArray_peel fun _ => avoids_ok _ _
  · exact rejectIf_peel fun _ => Avoids.bind (readTlvU64_inBounds _ _) fun _ _ => avoids_ok _ _
  · exact rejectIf_peel fun _ => Avoids.bind parseKdfProfileParams_inBounds fun _ _ => avoids_ok _ _
  · exact rejectIf_peel fun _ => Avoids.bind (readTlvU16_inBounds _ _) fun _ _ => avoids_ok _ _
  · exact rejectIf_peel fun _ => Avoids.bind (readTlvU16_inBounds _ _) fun _ _ => avoids_ok _ _
  · exact rejectIf_peel fun _ => Avoids.bind (readTlvU16_inBounds _ _) fun _ _ => avoids_ok _ _
  · exact rejectIf_peel fun _ => readArray_peel fun _ => avoids_ok _ _
  · exact avoids_error (formatError_ne_panic _)
  · exact avoids_ok _ _

/-- The loop keeps its cursor within the header. -/
theorem parseHeaderTlvs_inBounds {headerEnd cursor : Nat} {st : HeaderFields}
    (hcursor : cursor ≤ headerEnd) (hend : headerEnd ≤ bytes.length) (hmax : headerEnd ≤ usizeMax) :
    InBounds (parseHeaderTlvs bytes headerEnd cursor st) := by
  induction cursor, st using parseHeaderTlvs.induct bytes headerEnd with
  | case1 cursor st hlt e hnext =>
      have hbounds := nextHeaderTlv_inBounds hcursor hend hmax
      rw [hnext] at hbounds
      rw [parseHeaderTlvs, if_pos hlt, hnext]
      exact avoids_error (avoids_error_iff.mp hbounds)
  | case2 cursor st hlt tlv hnext e happly =>
      have hbounds := applyHeaderTlv_inBounds st tlv
      rw [happly] at hbounds
      rw [parseHeaderTlvs, if_pos hlt, hnext]
      simp only [happly]
      exact avoids_error (avoids_error_iff.mp hbounds)
  | case3 cursor st hlt tlv hnext st' happly ih =>
      rw [parseHeaderTlvs, if_pos hlt, hnext]
      simp only [happly]
      exact ih (nextHeaderTlv_lt hnext).2
  | case4 cursor st hnot =>
      rw [parseHeaderTlvs, if_neg hnot]
      exact avoids_ok _ _

theorem profileId_inBounds (supported value : UInt16) (error : String) :
    InBounds (ProfileId.new supported value error) := by
  unfold ProfileId.new
  split
  · exact avoids_ok _ _
  · exact avoids_error (formatError_ne_panic error)

theorem validateProfileSet_inBounds (header : VaultHeader) : InBounds (validateProfileSet header) :=
  Avoids.bind (profileId_inBounds _ _ _) fun _ _ =>
    Avoids.bind (profileId_inBounds _ _ _) fun _ _ =>
    Avoids.bind (profileId_inBounds _ _ _) fun _ _ =>
      Avoids.bind (profileId_inBounds _ _ _) fun _ _ =>
      avoids_ok _ _

/-- The prefix says where the header ends and the check of the total length
puts that inside the file, which is all the TLV loop asks. -/
theorem parseHeader_inBounds : InBounds (parseHeader bytes) := by
  have h26 : headerMinLen = 26 := rfl
  have h8 : prefixFormatVersionOffset = 8 := rfl
  unfold parseHeader
  refine rejectIf_peel fun hlen => sliceIndex_peel (by omega) (by omega) fun _ _ => ?_
  refine rejectIf_peel fun _ => readU16Le_peel fun version _ _ => rejectIf_peel fun _ => ?_
  refine readU32Le_peel fun headerLen _ _ => readU32Le_peel fun tableLen _ _ => ?_
  refine readU64Le_peel fun bodyLen _ _ => checkedAdd_peel fun hheader => rejectIf_peel fun _ => ?_
  refine checkedAdd_peel fun hfile => rejectIf_peel fun hend => ?_
  refine (parseHeaderTlvs_inBounds (by omega) (by omega) hheader).bind fun filled _ => ?_
  refine rejectIf_peel fun _ => okOr_peel fun _ _ => okOr_peel fun _ _ => okOr_peel fun _ _ => ?_
  refine okOr_peel fun _ _ => okOr_peel fun _ _ => okOr_peel fun _ _ => okOr_peel fun _ _ => ?_
  exact (validateProfileSet_inBounds _).bind fun _ _ => avoids_ok _ _

-- ========================================================== plain table

/-- A field read at the cursor leaves the cursor room for the step over it. -/
theorem parseTableEntries_inBounds (count cursor : Nat) :
    InBounds (parseTableEntries bytes count cursor) := by
  induction count generalizing cursor with
  | zero => exact avoids_ok _ _
  | succ count ih =>
      unfold parseTableEntries
      refine readArrayAt_peel fun recordId _ hmax => usizeAdd_peel hmax ?_
      refine readU16Le_peel fun recordKind _ hmax => usizeAdd_peel hmax ?_
      refine readArrayAt_peel fun revisionId _ hmax => usizeAdd_peel hmax ?_
      refine readU64Le_peel fun frameOffset _ hmax => usizeAdd_peel hmax ?_
      refine readU32Le_peel fun frameLen _ hmax => usizeAdd_peel hmax ?_
      exact rejectIf_peel fun _ => (ih _).bind fun _ _ => avoids_ok _ _

/-- Offset and length come from the caller, so their sum is the first
thing to check. -/
theorem parseRecordTable_inBounds (offset len : Nat) :
    InBounds (parseRecordTable bytes offset len) := by
  have h4 : recordTableCountLen = 4 := rfl
  unfold parseRecordTable
  refine checkedAdd_peel fun _ => rejectIf_peel fun hlen => readU32Le_peel fun count _ hmax => ?_
  refine okOr_peel fun _ _ => checkedAdd_peel fun _ => rejectIf_peel fun _ => ?_
  exact usizeAdd_peel (by omega) (parseTableEntries_inBounds _ _)

-- ========================================================= sealed table

theorem readTableField_peel {n cursor : Nat} {f : U8Array n → Res α} (hmax : cursor + n ≤ usizeMax)
    (h : ∀ v, InBounds (f v)) : InBounds (readTableField n bytes cursor >>= f) := by
  refine Avoids.bind ?_ fun v _ => h v
  unfold readTableField
  exact usizeAdd_peel hmax (okOr_peel fun value _ => readArray_inBounds n value _)

/-- The fields of an entry stand at fixed offsets: one bound for the entry
covers them all. -/
theorem readTableEntry_inBounds {cursor : Nat} (hmax : cursor + recordTableEntryLen ≤ usizeMax) :
    InBounds (readTableEntry bytes cursor) := by
  have h46 : recordTableEntryLen = 46 := rfl
  unfold readTableEntry
  refine readTableField_peel (by omega) fun recordId => usizeAdd_peel (by omega) ?_
  refine readTableField_peel (by omega) fun recordKind => usizeAdd_peel (by omega) ?_
  refine readTableField_peel (by omega) fun revisionId => usizeAdd_peel (by omega) ?_
  refine readTableField_peel (by omega) fun frameOffset => usizeAdd_peel (by omega) ?_
  refine readTableField_peel (by omega) fun frameLen => usizeAdd_peel (by omega) ?_
  exact avoids_ok _ _

/-- The sums over the offsets of an entry are all checked ones. -/
theorem admitTableEntry_inBounds (wrkFrameEnd fileLen sealedTableEnd : Nat) (scan : TableScan)
    (entry : RecordTableEntry) :
    InBounds (admitTableEntry wrkFrameEnd fileLen sealedTableEnd scan entry) := by
  unfold admitTableEntry
  refine rejectIf_peel fun _ => checkedAdd_peel fun _ => rejectIf_peel fun _ => ?_
  exact rejectIf_peel fun _ => rejectIf_peel fun _ => avoids_ok _ _

/-- The loop stays in bounds where the entries it is to read fit in a
`usize`, and then stops behind them. -/
theorem scanTableEntries_inBounds {wrkFrameEnd fileLen sealedTableEnd count cursor : Nat}
    {scan : TableScan} (hmax : cursor + count * recordTableEntryLen ≤ usizeMax) :
    InBounds (scanTableEntries bytes wrkFrameEnd fileLen sealedTableEnd count cursor scan) := by
  induction count generalizing cursor scan with
  | zero => exact avoids_ok _ _
  | succ count ih =>
      rw [Nat.succ_mul] at hmax
      unfold scanTableEntries
      refine (readTableEntry_inBounds (by omega)).bind fun read hentry => ?_
      obtain ⟨entry, stop⟩ := read
      obtain ⟨-, rfl⟩ := (readTableEntry_eq_ok (by omega)).mp hentry
      exact (admitTableEntry_inBounds _ _ _ scan entry).bind fun scan' _ => ih (by omega)

/-- Where the scan ends is known from the count alone, which the padding
check behind it needs. -/
theorem scanTableEntries_stop {wrkFrameEnd fileLen sealedTableEnd count cursor stop : Nat}
    {scan scan' : TableScan} (hmax : cursor + count * recordTableEntryLen ≤ usizeMax)
    (h : scanTableEntries bytes wrkFrameEnd fileLen sealedTableEnd count cursor scan
      = .ok (stop, scan')) : stop = cursor + count * recordTableEntryLen := by
  induction count generalizing cursor scan with
  | zero =>
      rw [scanTableEntries, Except.ok.injEq, Prod.mk.injEq] at h
      rw [Nat.zero_mul, Nat.add_zero]
      exact h.1.symm
  | succ count ih =>
      rw [Nat.succ_mul] at hmax ⊢
      simp only [scanTableEntries, bind_eq_ok, Prod.exists] at h
      obtain ⟨entry, next, hentry, scan'', -, hrest⟩ := h
      obtain ⟨-, rfl⟩ := (readTableEntry_eq_ok (by omega)).mp hentry
      have hstop := ih (by omega) hrest
      omega

/-- Adjacent spans are compared, not subtracted. -/
theorem rejectOverlaps_inBounds (spans : List (Nat × Nat)) : InBounds (rejectOverlaps spans) := by
  induction spans using rejectOverlaps.induct with
  | case1 leftStart leftEnd rightStart rightEnd rest ih =>
      unfold rejectOverlaps
      exact rejectIf_peel fun _ => ih
  | case2 spans hshort =>
      rw [rejectOverlaps]
      · exact avoids_ok _ _
      · exact hshort

/-- The padded table has room for the entries its count announces. -/
theorem entries_fit {plaintext : Bytes} {count : UInt32}
    (hcount : ¬ plaintext.length < recordTableCountLen)
    (hfits : ¬ count.toNat > (plaintext.length - recordTableCountLen) / recordTableEntryLen) :
    recordTableCountLen + count.toNat * recordTableEntryLen ≤ plaintext.length := by
  have hentries : count.toNat * recordTableEntryLen ≤ plaintext.length - recordTableCountLen :=
    (Nat.le_div_iff_mul_le (by decide)).mp (not_lt.mp hfits)
  omega

/-- The plaintext is as long as the cipher makes it, so nothing is known of
it but what is checked: that it holds its count, and the count entries
(`entries_fit`). In whatever order the extents are sorted, the check of the
overlaps stays in bounds. -/
theorem openSealedRecordTableV2With_inBounds (sortExtents : List (Nat × Nat) → List (Nat × Nat))
    (cipher : XChaCha20Poly1305) (offset len : Nat) (metadataKey : Key) (vaultId : U8Array 16)
    (schemaProfile : UInt16) (wrkFrameEnd fileLen : Nat) :
    InBounds (openSealedRecordTableV2With sortExtents cipher bytes offset len metadataKey vaultId
      schemaProfile wrkFrameEnd fileLen) := by
  have h4 : recordTableCountLen = 4 := rfl
  have h24 : xchacha20NonceLen = 24 := rfl
  have h16 : tagLen = 16 := rfl
  unfold openSealedRecordTableV2With buildTableAadV2
  rw [bind_assoc]
  refine rejectIf_peel fun _ => ?_
  simp only [pure_eq_ok, ok_bind]
  refine checkedAdd_peel fun hmax => rejectIf_peel fun hlen => readU32Le_peel fun tableLen _ _ => ?_
  refine rejectIf_peel fun _ => checkedAdd_peel fun _ => rejectIf_peel fun _ => ?_
  refine usizeAdd_peel (by omega) (readArrayAt_peel fun nonce _ _ => usizeAdd_peel (by omega) ?_)
  refine sliceIndex_peel (by omega) (by omega) fun ciphertext _ => ?_
  refine (avoids_orErr (formatError_ne_panic _)).bind fun plaintext _ =>
    rejectIf_peel fun hcount => ?_
  refine okOr_peel fun payloadLen hpayload => rejectIf_peel fun _ => rejectIf_peel fun _ => ?_
  obtain ⟨rfl, -⟩ := checkedSub_eq_some.mp hpayload
  refine sliceIndex_peel (by omega) (by omega) fun _ _ => readArray_peel fun count => ?_
  refine rejectIf_peel fun hfits => ?_
  have hroom := entries_fit hcount hfits
  have hentries : recordTableCountLen + (u32OfLE count).toNat * recordTableEntryLen ≤ usizeMax := by
    have hlt := Nat.mul_le_mul_right recordTableEntryLen (u32OfLE count).toNat_lt.le
    have hmax : recordTableCountLen + 2 ^ 32 * recordTableEntryLen ≤ usizeMax := by decide
    omega
  refine checkedAdd_peel fun _ => ?_
  refine (scanTableEntries_inBounds hentries).bind fun filled hscan => ?_
  obtain ⟨cursor, scan⟩ := filled
  rw [scanTableEntries_stop hentries hscan]
  refine sliceIndex_peel hroom le_rfl fun padding _ => rejectIf_peel fun _ => ?_
  exact (rejectOverlaps_inBounds _).bind fun _ _ => avoids_ok _ _

-- ============================================================== parsers

/-- Whatever the bytes and the arguments, no parser of the vault format reads
outside its input, and none overflows. -/
theorem vaultParsers_inBounds (bytes : Bytes) (offset len : Nat) (frameLen : UInt32)
    (aeadProfile : UInt16) (sortExtents : List (Nat × Nat) → List (Nat × Nat))
    (cipher : XChaCha20Poly1305) (metadataKey : Key) (vaultId : U8Array 16)
    (schemaProfile : UInt16) (wrkFrameEnd fileLen : Nat) :
    InBounds (parseHeader bytes) ∧ InBounds (parseKdfProfileParams bytes)
      ∧ InBounds (parseRecordTable bytes offset len)
      ∧ InBounds (parseRecordFrame bytes frameLen aeadProfile)
      ∧ InBounds (parseItemRecordFrameEnvelope bytes)
      ∧ InBounds (openSealedRecordTableV2With sortExtents cipher bytes offset len metadataKey
        vaultId schemaProfile wrkFrameEnd fileLen)
      ∧ InBounds (recordFrameEndOffset bytes offset) ∧ InBounds (recordFrameLenAt bytes offset) :=
  ⟨parseHeader_inBounds, parseKdfProfileParams_inBounds, parseRecordTable_inBounds offset len,
    parseRecordFrame_inBounds frameLen aeadProfile, parseItemRecordFrameEnvelope_inBounds,
    openSealedRecordTableV2With_inBounds sortExtents cipher offset len metadataKey vaultId
      schemaProfile wrkFrameEnd fileLen,
    recordFrameEndOffset_inBounds offset, recordFrameLenAt_inBounds offset⟩

end MeissnerSeal
