/-
What the readers of the body accept, as statements about segments.

# Frames and envelopes

A frame or an envelope that parses stands in the bytes as the writer would
have written it (`parseRecordFrame_eq_ok`,
`parseItemRecordFrameEnvelope_eq_ok`).
-/
import MeissnerSeal.Vault.HeaderParse
import MeissnerSeal.Vault.RecordRoundTrip

namespace MeissnerSeal

open ByteCodec ExceptRules

-- =============================================================== frames

/-- The bytes of a frame under an AEAD profile. -/
def RecordFrame.bytesAs (frame : RecordFrame) (aeadProfile : UInt16) : Bytes :=
  leU16 frame.frameVersion ++ frame.recordId.toList ++ frame.revisionId.toList ++ leU16 aeadProfile
    ++ [24] ++ frame.nonce.toList ++ leU32 79 ++ frame.storedAad.toList ++ leU32 frame.ciphertextLen
    ++ frame.ciphertext

theorem RecordFrame.length_bytesAs (frame : RecordFrame) (aeadProfile : UInt16) :
    (frame.bytesAs aeadProfile).length = frameLenFor frame.ciphertext.length := by
  have haad : frame.storedAad.toList.length = 79 := frame.storedAad.toList_length
  simp [bytesAs, frameLenFor, haad]
  omega

/-- The fields of a frame, where the parser looks for them. -/
theorem RecordFrame.segAt_bytesAs {frame : RecordFrame} {aeadProfile : UInt16} {bytes : Bytes}
    {offset : Nat} :
    SegAt bytes offset (frame.bytesAs aeadProfile)
      ↔ ((((((((SegAt bytes offset (leU16 frame.frameVersion)
        ∧ SegAt bytes (offset + 2) frame.recordId.toList)
        ∧ SegAt bytes (offset + 18) frame.revisionId.toList)
        ∧ SegAt bytes (offset + 34) (leU16 aeadProfile))
        ∧ SegAt bytes (offset + 36) [24])
        ∧ SegAt bytes (offset + 37) frame.nonce.toList)
        ∧ SegAt bytes (offset + 61) (leU32 79))
        ∧ SegAt bytes (offset + 65) frame.storedAad.toList)
        ∧ SegAt bytes (offset + 144) (leU32 frame.ciphertextLen))
        ∧ SegAt bytes (offset + 148) frame.ciphertext := by
  have haad : frame.storedAad.toList.length = 79 := frame.storedAad.toList_length
  simp only [bytesAs, segAt_append, List.length_append, List.length_singleton, length_leU16,
    length_leU32, haad, List.Vector.toList_length, Nat.reduceAdd]

/-- The writer knows one AEAD profile. -/
theorem serializeRecordFrame_storedAad {frame : RecordFrame} {x : Bytes} :
    serializeRecordFrame frame frame.storedAad = .ok x
      ↔ frame.ciphertextLen.toNat = frame.ciphertext.length
        ∧ x = frame.bytesAs aeadXchacha20Poly1305V1 :=
  serializeRecordFrame_eq_ok

/-- The frame at the head of some bytes, under the profile the
reader expects. -/
theorem parseRecordFrame_iff {frame : RecordFrame} {bytes : Bytes} {len : UInt32}
    {aeadProfile : UInt16} :
    parseRecordFrame bytes len aeadProfile = .ok frame
      ↔ frame.frameVersion = formatVersion ∧ 16 ≤ frame.ciphertext.length
        ∧ frame.ciphertextLen.toNat = frame.ciphertext.length
        ∧ SegAt bytes 0 (frame.bytesAs aeadProfile)
        ∧ len.toNat = (frame.bytesAs aeadProfile).length := by
  have hfixed : recordFrameFixedPrefixLen = 37 := rfl
  have hnonce : xchacha20NonceLen = 24 := rfl
  have h24 : (24 : UInt8).toNat = 24 := rfl
  have h79 : (79 : UInt32).toNat = 79 := rfl
  simp only [parseRecordFrame, bind_eq_ok, okOr_eq_ok, checkedAdd_eq_some, usizeAdd_eq_ok,
    rejectIf_eq_ok, sliceIndex_eq_ok, readU16Le_eq_ok, readU32Le_eq_ok, readArrayAt_eq_ok,
    readArray_eq_ok, index_eq_ok, pure_eq_ok, Except.ok.injEq, Decidable.not_not]
  constructor
  · intro h
    obtain ⟨-, -, x, ⟨hx, hxLen⟩, version, ⟨h1, -⟩, -, rfl, recordId, ⟨h2, -⟩, _,
      ⟨rfl, -⟩, revisionId, ⟨h3, -⟩, _, ⟨rfl, -⟩, profile, ⟨h4, -⟩, _, ⟨rfl, -⟩, -, rfl, h⟩ := h
    obtain ⟨nonceLen, h5, _, ⟨rfl, -⟩, -, hlen24, nonce, ⟨h6, -⟩, _, ⟨rfl, -⟩, aadLen, ⟨h7, -⟩, _,
      ⟨rfl, -⟩, _, ⟨rfl, -⟩, -, -, h⟩ := h
    obtain ⟨ctLen, ⟨h9, -⟩, _, ⟨rfl, -⟩, -, htag, _, ⟨rfl, -⟩, -, -, -, hend, aadBytes,
      ⟨h8, haadEnd⟩, storedAad, rfl, ciphertext, ⟨h10, hctEnd⟩, rfl⟩ := h
    rw [hlen24, hnonce] at h7 h8 h9 h10 haadEnd hend hctEnd
    have haad : storedAad.toList.length = 79 := storedAad.toList_length
    have hnonceLen : nonceLen = 24 := UInt8.toNat_inj.mp (hlen24.trans hnonce)
    have haadLen : aadLen = 79 := UInt32.toNat_inj.mp (by rw [haad] at haadEnd; omega)
    subst hnonceLen haadLen
    simp only [h79, Nat.reduceAdd] at h7 h8 h9 h10 hend hctEnd
    have hlen := RecordFrame.length_bytesAs
      ⟨formatVersion, recordId, revisionId, nonce, storedAad, ctLen, ciphertext⟩ profile
    rw [frameLenFor] at hlen
    have hparts : SegAt x 0 (RecordFrame.bytesAs
        ⟨formatVersion, recordId, revisionId, nonce, storedAad, ctLen, ciphertext⟩ profile) := by
      rw [RecordFrame.segAt_bytesAs]
      simp only [Nat.zero_add]
      exact ⟨⟨⟨⟨⟨⟨⟨⟨⟨h1, h2⟩, h3⟩, h4⟩, h5⟩, h6⟩, h7⟩, h8⟩, h9⟩, h10⟩
    exact ⟨rfl, by simp only; omega, by simp only; omega, hx.trans hparts,
      by simp only at hlen; omega⟩
  · rintro ⟨hversion, htag, hct, hseg, hlen⟩
    have hlt := len.toNat_lt
    have hsmall : 2 ^ 33 ≤ usizeMax := by decide
    have hle := hseg.le
    have hxlen := frame.length_bytesAs aeadProfile
    rw [frameLenFor] at hxlen
    have haad : frame.storedAad.toList.length = 79 := frame.storedAad.toList_length
    have hparts := RecordFrame.segAt_bytesAs.mp (segAt_self (frame.bytesAs aeadProfile))
    simp only [Nat.zero_add] at hparts
    obtain ⟨⟨⟨⟨⟨⟨⟨⟨⟨h1, h2⟩, h3⟩, h4⟩, h5⟩, h6⟩, h7⟩, h8⟩, h9⟩, h10⟩ := hparts
    refine ⟨(), by omega, _, ⟨hseg, by omega⟩, frame.frameVersion, ⟨h1, by omega⟩, (), hversion,
      frame.recordId, ⟨h2, by omega⟩, 18, ⟨rfl, by omega⟩, frame.revisionId, ⟨h3, by omega⟩, 34,
      ⟨rfl, by omega⟩, aeadProfile, ⟨h4, by omega⟩, 36, ⟨rfl, by omega⟩, (), rfl, 24, h5, 37,
      ⟨rfl, by omega⟩, (), rfl, frame.nonce, ⟨h6, by omega⟩, 61, ⟨rfl, by omega⟩, 79,
      ⟨h7, by omega⟩, 65, ⟨rfl, by omega⟩, 144, ⟨rfl, by omega⟩, (), by omega, frame.ciphertextLen,
      ⟨h9, by omega⟩, 148, ⟨rfl, by omega⟩, (), by omega, _, ⟨rfl, by omega⟩, (), by omega, (),
      by omega, _, ⟨h8, by omega⟩, frame.storedAad, rfl, frame.ciphertext, ⟨h10, by omega⟩, rfl⟩

/-- Under the profile of the writer, a frame parses where it was written. -/
theorem parseRecordFrame_eq_ok {frame : RecordFrame} {bytes : Bytes} {len : UInt32} :
    parseRecordFrame bytes len aeadXchacha20Poly1305V1 = .ok frame
      ↔ frame.frameVersion = formatVersion ∧ 16 ≤ frame.ciphertext.length
        ∧ ∃ x, serializeRecordFrame frame frame.storedAad = .ok x ∧ SegAt bytes 0 x
          ∧ len.toNat = x.length := by
  rw [parseRecordFrame_iff]
  constructor
  · rintro ⟨hversion, htag, hct, hseg, hlen⟩
    exact ⟨hversion, htag, _, serializeRecordFrame_storedAad.mpr ⟨hct, rfl⟩, hseg, hlen⟩
  · rintro ⟨hversion, htag, x, hser, hseg, hlen⟩
    obtain ⟨hct, rfl⟩ := serializeRecordFrame_storedAad.mp hser
    exact ⟨hversion, htag, hct, hseg, hlen⟩

/-- A written frame that carries a tag parses back. -/
theorem parseRecordFrame_of_segAt {frame : RecordFrame} {x bytes : Bytes} {len : UInt32}
    (h : serializeRecordFrame frame frame.storedAad = .ok x)
    (hversion : frame.frameVersion = formatVersion) (htag : 16 ≤ frame.ciphertext.length)
    (hseg : SegAt bytes 0 x) (hlen : len.toNat = x.length) :
    parseRecordFrame bytes len aeadXchacha20Poly1305V1 = .ok frame :=
  parseRecordFrame_eq_ok.mpr ⟨hversion, htag, x, h, hseg, hlen⟩

/-- The length of a frame is told by its own bytes. -/
theorem recordFrameLenAt_of_same {bytes bytes' x : Bytes} {offset : Nat} {len : UInt32}
    (h : recordFrameLenAt bytes offset = .ok len) (hlen : len.toNat = x.length)
    (hx : SegAt bytes offset x) (hx' : SegAt bytes' offset x) :
    recordFrameLenAt bytes' offset = .ok len := by
  obtain ⟨nonceLen, aadLen, ctLen, hnonceLen, haadLen, hctLen, hsum, hend⟩ :=
    recordFrameLenAt_eq_ok.mp h
  have hmove : ∀ {off : Nat} {y : Bytes}, off + y.length ≤ x.length → SegAt bytes (offset + off) y →
      SegAt bytes' (offset + off) y :=
    fun hle hy => hx'.trans (hx.within hy hle)
  rw [Nat.add_assoc] at haadLen
  rw [Nat.add_assoc offset, Nat.add_assoc offset, Nat.add_assoc offset] at hctLen
  refine recordFrameLenAt_eq_ok.mpr ⟨nonceLen, aadLen, ctLen, hmove ?_ hnonceLen, ?_,
    ?_, hsum, hend⟩
  · rw [List.length_singleton]
    omega
  · rw [Nat.add_assoc]
    refine hmove ?_ haadLen
    rw [length_leU32]
    omega
  · rw [Nat.add_assoc offset, Nat.add_assoc offset, Nat.add_assoc offset]
    refine hmove ?_ hctLen
    rw [length_leU32]
    omega

-- ============================================================ envelopes

/-- An envelope takes up all of the bytes it parses from. -/
theorem parseItemRecordFrameEnvelope_eq_ok {envelope : ItemRecordFrameEnvelope} {bytes : Bytes} :
    parseItemRecordFrameEnvelope bytes = .ok envelope
      ↔ serializeItemRecordFrameEnvelope envelope = .ok bytes := by
  constructor
  · intro h
    have hnonce : xchacha20NonceLen = 24 := rfl
    simp only [parseItemRecordFrameEnvelope, bind_eq_ok, okOr_eq_ok, checkedAdd_eq_some,
      usizeAdd_eq_ok, rejectIf_eq_ok, slice?_eq_some_iff, readU32Le_eq_ok, readArrayAt_eq_ok,
      pure_eq_ok, Except.ok.injEq, Decidable.not_not, hnonce] at h
    obtain ⟨wrapNonce, ⟨h1, -⟩, _, ⟨rfl, -⟩, rekLen, ⟨h2, -⟩, _, ⟨rfl, -⟩, -, hrekPos, _, ⟨rfl, -⟩,
      wrappedRek, ⟨h3, hrek⟩, payloadNonce, ⟨h4, -⟩, _, ⟨rfl, -⟩, payloadLen, ⟨h5, -⟩,
      _, ⟨rfl, -⟩, -, hpayloadPos, _, ⟨rfl, -⟩, payload, ⟨h6, hpayload⟩, -, hend, rfl⟩ := h
    have hrekLen : rekLen.toNat = wrappedRek.length := by omega
    have hpayloadLen : payloadLen.toNat = payload.length := by omega
    refine serializeItemRecordFrameEnvelope_eq_ok.mpr ⟨?_, ?_, rekLen, payloadLen, hrekLen,
      hpayloadLen, ?_⟩
    · exact List.ne_nil_of_length_pos (by simp only; omega)
    · exact List.ne_nil_of_length_pos (by simp only; omega)
    · refine SegAt.eq_of_length ?_ ?_
      · simp only [segAt_append, List.length_append, length_leU32, List.Vector.toList_length,
          Nat.reduceAdd, Nat.zero_add, ← hrekLen]
        exact ⟨⟨⟨⟨⟨h1, h2⟩, h3⟩, h4⟩, h5⟩, h6⟩
      · simp only [List.length_append, length_leU32, List.Vector.toList_length]
        omega
  · intro h
    exact parseItemRecordFrameEnvelope_of_serialize h

end MeissnerSeal
