/-
Record frames between their two readers.

# Parser and writer

The parser takes from the bytes exactly what the writer would have put
there, so each undoes the other (`recordFrame_codec`). The envelope inside an
item's frame holds the wrapped item key and the encrypted payload one after
the other; only one cut between them reads (`itemEnvelope_codec`).

# Parser and engine

The engine finds where the record table starts by walking the length fields
of the root-key frame, before anything parses it. Wherever the parser
accepts a frame, of whatever profile, the walk ends where that frame does
(`frameLengths_agree`).
-/
import MeissnerSeal.Vault.Head

namespace MeissnerSeal

open ByteCodec ExceptRules

-- ===================================================== parser and writer

/-- A frame of this version that carries a tag parses back from what was
written, whatever follows it; a frame that parses was written so. -/
theorem recordFrame_codec :
    (∀ frame : RecordFrame, frame.frameVersion = formatVersion → 16 ≤ frame.ciphertext.length →
        frameLenFor frame.ciphertext.length < 2 ^ 32 →
        ((∃ x, serializeRecordFrame frame frame.storedAad = .ok x)
            ↔ frame.ciphertextLen.toNat = frame.ciphertext.length)
          ∧ ∀ x, serializeRecordFrame frame frame.storedAad = .ok x →
              x.length = frameLenFor frame.ciphertext.length
              ∧ ∀ suffix : Bytes, parseRecordFrame (x ++ suffix) (UInt32.ofNat x.length)
                  aeadXchacha20Poly1305V1 = .ok frame)
      ∧ ∀ (bytes : Bytes) (len : UInt32) (frame : RecordFrame),
          parseRecordFrame bytes len aeadXchacha20Poly1305V1 = .ok frame →
          serializeRecordFrame frame frame.storedAad = .ok (bytes.take len.toNat) := by
  constructor
  · intro frame hversion htag hlen
    refine ⟨⟨?_, fun hct => ⟨_, serializeRecordFrame_storedAad.mpr ⟨hct, rfl⟩⟩⟩, fun x hser => ?_⟩
    · rintro ⟨x, hser⟩
      exact (serializeRecordFrame_storedAad.mp hser).1
    · have hx := length_of_serializeRecordFrame hser
      refine ⟨hx, fun suffix => ?_⟩
      have hu32 : (UInt32.ofNat x.length).toNat = x.length := toNat_u32_ofNat (by omega)
      exact parseRecordFrame_of_segAt hser hversion htag ⟨[], suffix, rfl, rfl⟩ hu32
  · intro bytes len frame hparse
    obtain ⟨-, -, x, hser, hseg, hlen⟩ := parseRecordFrame_eq_ok.mp hparse
    rw [hlen, hseg.take_eq]
    exact hser

/-- A frame over nothing but a tag. -/
def sampleFrame : RecordFrame where
  frameVersion := formatVersion
  recordId := numberedId 1
  revisionId := numberedId 2
  nonce := List.Vector.replicate 24 0
  storedAad := List.Vector.replicate 79 0
  ciphertextLen := 16
  ciphertext := List.replicate 16 0

theorem recordFrame_codec_of_sample :
    ∃ x, serializeRecordFrame sampleFrame sampleFrame.storedAad = .ok x
      ∧ parseRecordFrame (x ++ [7]) 164 aeadXchacha20Poly1305V1 = .ok sampleFrame := by
  obtain ⟨hser, hparse⟩ := recordFrame_codec.1 sampleFrame rfl (by decide) (by decide)
  obtain ⟨x, hx⟩ := hser.mpr rfl
  obtain ⟨hlen, hsuffix⟩ := hparse x hx
  have hback := hsuffix [7]
  rw [hlen] at hback
  exact ⟨x, hx, hback⟩

-- ============================================================ envelopes

/-- An envelope whose two ciphertexts are there and fit a `u32` parses back
from what was written; bytes that parse were written so, from that envelope
and no other. -/
theorem itemEnvelope_codec :
    (∀ envelope : ItemRecordFrameEnvelope, envelope.wrappedRek ≠ [] →
        envelope.encryptedPayload ≠ [] → envelope.wrappedRek.length < 2 ^ 32 →
        envelope.encryptedPayload.length < 2 ^ 32 →
        ∃ x, serializeItemRecordFrameEnvelope envelope = .ok x
          ∧ parseItemRecordFrameEnvelope x = .ok envelope)
      ∧ (∀ (bytes : Bytes) (envelope : ItemRecordFrameEnvelope),
          parseItemRecordFrameEnvelope bytes = .ok envelope →
          serializeItemRecordFrameEnvelope envelope = .ok bytes)
      ∧ ∀ (bytes : Bytes) (envelope envelope' : ItemRecordFrameEnvelope),
          serializeItemRecordFrameEnvelope envelope = .ok bytes →
          serializeItemRecordFrameEnvelope envelope' = .ok bytes → envelope = envelope' := by
  refine ⟨fun envelope hrek hpayload hrekLt hpayloadLt => ?_, fun bytes envelope h =>
    parseItemRecordFrameEnvelope_eq_ok.mp h, fun bytes envelope envelope' h h' =>
    serializeItemRecordFrameEnvelope_inj h h'⟩
  have hser := serializeItemRecordFrameEnvelope_eq_ok.mpr ⟨hrek, hpayload,
    UInt32.ofNat envelope.wrappedRek.length, UInt32.ofNat envelope.encryptedPayload.length,
    toNat_u32_ofNat hrekLt, toNat_u32_ofNat hpayloadLt, rfl⟩
  exact ⟨_, hser, parseItemRecordFrameEnvelope_of_serialize hser⟩

/-- An envelope with a key of two bytes and a payload of three. -/
def sampleEnvelope : ItemRecordFrameEnvelope where
  rekWrapNonce := List.Vector.replicate 24 1
  wrappedRek := [2, 3]
  payloadNonce := List.Vector.replicate 24 4
  encryptedPayload := [5, 6, 7]

theorem itemEnvelope_codec_of_sample :
    ∃ x, serializeItemRecordFrameEnvelope sampleEnvelope = .ok x
      ∧ parseItemRecordFrameEnvelope x = .ok sampleEnvelope :=
  itemEnvelope_codec.1 sampleEnvelope (by decide) (by decide) (by decide) (by decide)

-- ===================================================== parser and engine

/-- Where a frame parses, under any profile, the walk over its length fields
ends where it does. -/
theorem recordFrameLenAt_of_parse {bytes : Bytes} {offset : Nat} {len : UInt32}
    {aeadProfile : UInt16} {frame : RecordFrame} (hmax : bytes.length ≤ usizeMax)
    (h : parseRecordFrame (bytes.drop offset) len aeadProfile = .ok frame) :
    recordFrameLenAt bytes offset = .ok len := by
  obtain ⟨-, -, hct, hseg, hlen⟩ := parseRecordFrame_iff.mp h
  have hbytes := frame.length_bytesAs aeadProfile
  rw [frameLenFor] at hbytes
  have hle := hseg.le
  rw [List.length_drop] at hle
  obtain ⟨⟨⟨⟨⟨⟨-, hnonceLen⟩, -⟩, haadLen⟩, -⟩, hctLen⟩, -⟩ :=
    RecordFrame.segAt_bytesAs.mp (hseg.of_drop (by omega))
  refine recordFrameLenAt_of_fields hnonceLen haadLen hctLen ?_ (by omega)
  rw [hlen, hct]
  exact frame.length_bytesAs aeadProfile

/-- The length the parser accepts at an offset is the one the engine finds
there; the record table that `unlock` and `load_vault` open starts at the end
of the root-key frame that parses. -/
theorem frameLengths_agree {bytes : Bytes} (hmax : bytes.length ≤ usizeMax) :
    (∀ offset len aeadProfile frame,
        parseRecordFrame (bytes.drop offset) len aeadProfile = .ok frame →
        recordFrameLenAt bytes offset = .ok len)
      ∧ (∀ offset len len' aeadProfile aeadProfile' frame frame',
          parseRecordFrame (bytes.drop offset) len aeadProfile = .ok frame →
          parseRecordFrame (bytes.drop offset) len' aeadProfile' = .ok frame' → len = len')
      ∧ (∀ untrusted, UntrustedVaultFile.parseAndValidate bytes = .ok untrusted →
          ∀ len aeadProfile frame,
            parseRecordFrame (bytes.drop untrusted.wrkFrameOffset) len aeadProfile = .ok frame →
            untrusted.wrkFrameLen = len)
      ∧ (∀ platform path password session, unlockBytes platform path password bytes = .ok session →
          ∃ untrusted frame entries, UntrustedVaultFile.parseAndValidate bytes = .ok untrusted
            ∧ parseRecordFrame (bytes.drop untrusted.wrkFrameOffset) untrusted.wrkFrameLen
                untrusted.header.aeadProfile = .ok frame
            ∧ openSealedRecordTableV2 platform.cipher bytes
                (untrusted.wrkFrameOffset + untrusted.wrkFrameLen.toNat) untrusted.recordTableLen
                session.keys.metadataKey untrusted.header.vaultId untrusted.header.schemaProfile
                (untrusted.wrkFrameOffset + untrusted.wrkFrameLen.toNat) bytes.length = .ok entries)
      ∧ ∀ platform session loaded, loadVaultBytes platform session bytes = .ok loaded →
          ∃ tableLen, openSealedRecordTableV2 platform.cipher bytes
              (loaded.wrkFrameOffset + loaded.wrkFrameLen) tableLen session.keys.metadataKey
              loaded.header.vaultId loaded.header.schemaProfile
              (loaded.wrkFrameOffset + loaded.wrkFrameLen) bytes.length = .ok loaded.entries
            ∧ ∀ len aeadProfile frame,
                parseRecordFrame (bytes.drop loaded.wrkFrameOffset) len aeadProfile = .ok frame →
                loaded.wrkFrameLen = len.toNat := by
  have hsame : ∀ {offset len len' aeadProfile frame},
      parseRecordFrame (bytes.drop offset) len aeadProfile = .ok frame →
      recordFrameLenAt bytes offset = .ok len' → len' = len := by
    intro offset len len' aeadProfile frame hparse hfound
    rw [recordFrameLenAt_of_parse hmax hparse, Except.ok.injEq] at hfound
    exact hfound.symm
  refine ⟨fun _ _ _ _ => recordFrameLenAt_of_parse hmax, ?_, ?_, ?_, ?_⟩
  · intro offset len len' aeadProfile aeadProfile' frame frame' hparse hparse'
    exact hsame hparse' (recordFrameLenAt_of_parse hmax hparse)
  · intro untrusted huntrusted len aeadProfile frame hparse
    simp only [UntrustedVaultFile.parseAndValidate, bind_eq_ok, pure_eq_ok, Except.ok.injEq]
      at huntrusted
    obtain ⟨-, -, _, -, -, -, _, -, _, -, _, -, wrkLen, hwrkLen, rfl⟩ := huntrusted
    exact hsame hparse hwrkLen
  · intro platform path password session hunlock
    obtain ⟨hle, head, entries, hhead, -, hopen, -⟩ := unlockBytes_eq_ok.mp hunlock
    have hprofile := (supported_of_parseHeader hmax hhead.header_parsed).2.2.1
    have hlen := toNat_u32_ofNat hhead.wrk_length
    refine ⟨_, head.wrkFrame, entries, hhead.parseAndValidate_eq (not_lt.mpr hle), ?_, ?_⟩
    · simp only [hprofile]
      exact parseRecordFrame_of_segAt hhead.wrk_serialized hhead.wrk_version hhead.wrk_tag
        hhead.wrk_at.drop hlen
    · simp only [hlen]
      exact hopen
  · intro platform session loaded hload
    obtain ⟨headerLen, tableLen, wrkLen, -, -, -, hwrkLen, hopen, -, hoffset, hlen⟩ :=
      loadVaultBytes_eq_ok.mp hload
    rw [← hoffset] at hwrkLen
    rw [← hoffset, ← hlen] at hopen
    refine ⟨_, hopen, fun len aeadProfile frame hparse => ?_⟩
    rw [hlen, hsame hparse hwrkLen]

theorem frameLengths_agree_of_sample :
    recordFrameLenAt (sampleFrame.bytesAs aeadXchacha20Poly1305V1) 0 = .ok 164 := by
  have hlen := sampleFrame.length_bytesAs aeadXchacha20Poly1305V1
  have hmax : (sampleFrame.bytesAs aeadXchacha20Poly1305V1).length ≤ usizeMax := by
    rw [hlen]
    decide
  have hser := serializeRecordFrame_storedAad.mpr ⟨(rfl : sampleFrame.ciphertextLen.toNat = _), rfl⟩
  have hparse : parseRecordFrame _ 164 _ = .ok sampleFrame :=
    parseRecordFrame_of_segAt hser rfl (by decide) (segAt_self _) hlen.symm
  exact (frameLengths_agree hmax).1 0 164 aeadXchacha20Poly1305V1 sampleFrame hparse

end MeissnerSeal
