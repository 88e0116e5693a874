/-
Round trips of frames and envelopes, and what the writer of the sealed
record table seals.

# Writers

Each writer has one lemma that says when it writes and what
(`serializeRecordFrame_eq_ok`, `serializeItemRecordFrameEnvelope_eq_ok`,
`serializeSealedRecordTableV2_eq_ok`). The lengths follow, and what stands
where in a file that holds the bytes.

# Length fields

The engine finds the length of a frame without parsing it, from three length
fields (`recordFrameLenAt_eq_ok`).
-/
import MeissnerSeal.Vault.HeaderRoundTrip

namespace MeissnerSeal

open ByteCodec ExceptRules

-- =============================================================== frames

/-- The length of a record frame over a ciphertext of `n` bytes. -/
def frameLenFor (n : Nat) : Nat := 148 + n

/-- A frame is written if its length field is right. Nonce and AAD have
fixed lengths, and no sum of such lengths overflows. -/
theorem serializeRecordFrame_eq_ok {frame : RecordFrame} {aad : U8Array recordAadLen} {x : Bytes} :
    serializeRecordFrame frame aad = .ok x
      ↔ frame.ciphertextLen.toNat = frame.ciphertext.length
        ∧ x = leU16 frame.frameVersion ++ frame.recordId.toList ++ frame.revisionId.toList
            ++ leU16 1 ++ [24] ++ frame.nonce.toList ++ leU32 79 ++ aad.toList
            ++ leU32 frame.ciphertextLen ++ frame.ciphertext := by
  have hlt := frame.ciphertextLen.toNat_lt
  have hu79 : ∀ v : UInt32, v.toNat = aad.toList.length ↔ v = 79 := by
    intro v
    rw [List.Vector.toList_length, ← UInt32.toNat_inj]
    rfl
  have hnonce : UInt8.ofNat xchacha20NonceLen = 24 := rfl
  have hmax : recordFrameFixedPrefixLen + xchacha20NonceLen + 4 + recordAadLen + 4 + 2 ^ 32
      ≤ usizeMax := by decide
  simp only [serializeRecordFrame, lenToU32, bind_eq_ok, rejectIf_eq_ok, okOr_eq_ok,
    u32TryFrom_eq_some, checkedAdd_eq_some, pure_eq_ok, Except.ok.injEq, Decidable.not_not, hu79,
    hnonce]
  constructor
  · rintro ⟨-, -, len, hlen, -, hct, -, -, -, -, -, -, -, -, -, -, _, rfl, rfl⟩
    exact ⟨by rw [hct, hlen], rfl⟩
  · rintro ⟨hct, rfl⟩
    refine ⟨(), by simp [xchacha20NonceLen], frame.ciphertextLen, hct, (), rfl, _,
      ⟨rfl, by decide⟩, _, ⟨rfl, by decide⟩, _, ⟨rfl, ?_⟩, _, ⟨rfl, ?_⟩, _, ⟨rfl, ?_⟩, 79, rfl,
      rfl⟩
    · simp only [List.Vector.toList_length]; decide
    · simp only [List.Vector.toList_length]; decide
    · simp only [List.Vector.toList_length, ← hct]; omega

theorem length_of_serializeRecordFrame {frame : RecordFrame} {aad : U8Array recordAadLen}
    {x : Bytes} (h : serializeRecordFrame frame aad = .ok x) :
    x.length = frameLenFor frame.ciphertext.length := by
  obtain ⟨-, rfl⟩ := serializeRecordFrame_eq_ok.mp h
  have haad : aad.toList.length = 79 := aad.toList_length
  simp [frameLenFor, haad]
  omega

/-- The fields of a frame, where the readers look for them. -/
theorem segAt_frame {frame : RecordFrame} {aad : U8Array recordAadLen} {x bytes : Bytes}
    {offset : Nat} (h : serializeRecordFrame frame aad = .ok x) (hseg : SegAt bytes offset x) :
    SegAt bytes offset (leU16 frame.frameVersion)
      ∧ SegAt bytes (offset + 2) frame.recordId.toList
      ∧ SegAt bytes (offset + 18) frame.revisionId.toList
      ∧ SegAt bytes (offset + 34) (leU16 1)
      ∧ SegAt bytes (offset + 36) [24]
      ∧ SegAt bytes (offset + 37) frame.nonce.toList
      ∧ SegAt bytes (offset + 61) (leU32 79)
      ∧ SegAt bytes (offset + 65) aad.toList
      ∧ SegAt bytes (offset + 144) (leU32 frame.ciphertextLen)
      ∧ SegAt bytes (offset + 148) frame.ciphertext := by
  obtain ⟨-, rfl⟩ := serializeRecordFrame_eq_ok.mp h
  have haad : aad.toList.length = 79 := aad.toList_length
  simp only [segAt_append, List.length_append, List.length_singleton, length_leU16, length_leU32,
    haad, List.Vector.toList_length, Nat.reduceAdd] at hseg
  obtain ⟨⟨⟨⟨⟨⟨⟨⟨⟨h1, h2⟩, h3⟩, h4⟩, h5⟩, h6⟩, h7⟩, h8⟩, h9⟩, h10⟩ := hseg
  exact ⟨h1, h2, h3, h4, h5, h6, h7, h8, h9, h10⟩

/-- The length of a frame, from its three length fields. -/
theorem recordFrameLenAt_eq_ok {bytes : Bytes} {offset : Nat} {len : UInt32} :
    recordFrameLenAt bytes offset = .ok len
      ↔ ∃ (nonceLen : UInt8) (aadLen ctLen : UInt32), SegAt bytes (offset + 36) [nonceLen]
        ∧ SegAt bytes (offset + 37 + nonceLen.toNat) (leU32 aadLen)
        ∧ SegAt bytes (offset + 37 + nonceLen.toNat + 4 + aadLen.toNat) (leU32 ctLen)
        ∧ len.toNat = 45 + nonceLen.toNat + aadLen.toNat + ctLen.toNat
        ∧ offset + len.toNat ≤ usizeMax := by
  have hread : ∀ {off : Nat} {v : UInt32}, readU32At bytes off = .ok v
      ↔ SegAt bytes off (leU32 v) ∧ off + 4 ≤ usizeMax := by
    intro off v
    simp only [readU32At, bind_eq_ok, okOr_eq_ok, checkedAdd_eq_some, slice?_eq_some_iff,
      readArray_eq_ok, pure_eq_ok, Except.ok.injEq]
    constructor
    · rintro ⟨_, ⟨rfl, hoff⟩, _, ⟨hseg, -⟩, array, rfl, rfl⟩
      rw [leU32_u32OfLE]
      exact ⟨hseg, hoff⟩
    · rintro ⟨hseg, hoff⟩
      exact ⟨_, ⟨rfl, hoff⟩, leU32 v, ⟨hseg, by simp⟩, arrayLE32 v, rfl, u32OfLE_arrayLE32 v⟩
  -- the nonce length is one byte, read by index
  have hindex : ∀ {i : Nat} {b : UInt8}, bytes[i]? = some b ↔ SegAt bytes i [b] := by
    intro i b
    rw [← index_eq_ok, index, okOr_eq_ok]
  simp only [recordFrameLenAt, recordFrameEndOffset, bind_eq_ok, okOr_eq_ok, checkedAdd_eq_some,
    checkedSub_eq_some, rejectIf_eq_ok, u32TryFrom_eq_some, hread, hindex, Nat.reduceAdd]
  constructor
  · rintro ⟨_, ⟨_, ⟨rfl, -⟩, -, -, _, ⟨rfl, -⟩, nonceLen, hnonceLen, _, ⟨rfl, -⟩, aadLen,
      ⟨haadLen, -⟩, _, ⟨rfl, -⟩, _, ⟨rfl, -⟩, ctLen, ⟨hctLen, -⟩, _, ⟨rfl, -⟩, rfl, hend⟩,
      _, ⟨rfl, -⟩, hlen⟩
    exact ⟨nonceLen, aadLen, ctLen, hnonceLen, haadLen, hctLen, by omega, by omega⟩
  · rintro ⟨nonceLen, aadLen, ctLen, hnonceLen, haadLen, hctLen, hlen, hend⟩
    have hle := haadLen.le
    rw [length_leU32] at hle
    refine ⟨_, ⟨_, ⟨rfl, by omega⟩, (), by omega, _, ⟨rfl, by omega⟩, nonceLen, hnonceLen, _,
      ⟨rfl, by omega⟩, aadLen, ⟨haadLen, by omega⟩, _, ⟨rfl, by omega⟩, _, ⟨rfl, by omega⟩, ctLen,
      ⟨hctLen, by omega⟩, _, ⟨rfl, by omega⟩, rfl, by omega⟩, _, ⟨rfl, by omega⟩, by omega⟩

/-- The length of a frame whose nonce and AAD are as long as the writer's. -/
theorem recordFrameLenAt_of_fields {bytes : Bytes} {offset : Nat} {ctLen len : UInt32}
    (hnonceLen : SegAt bytes (offset + 36) [24]) (haadLen : SegAt bytes (offset + 61) (leU32 79))
    (hctLen : SegAt bytes (offset + 144) (leU32 ctLen)) (hlen : len.toNat = frameLenFor ctLen.toNat)
    (hend : offset + len.toNat ≤ usizeMax) : recordFrameLenAt bytes offset = .ok len := by
  have h24 : (24 : UInt8).toNat = 24 := rfl
  have h79 : (79 : UInt32).toNat = 79 := rfl
  rw [frameLenFor] at hlen
  refine recordFrameLenAt_eq_ok.mpr ⟨24, 79, ctLen, hnonceLen, ?_, ?_, ?_, hend⟩
  · rw [h24]
    exact haadLen
  · rw [h24, h79]
    exact hctLen
  · rw [h24, h79]
    omega

/-- A written frame's length is found from the bytes it stands in. -/
theorem recordFrameLenAt_of_segAt {frame : RecordFrame} {aad : U8Array recordAadLen}
    {x bytes : Bytes} {offset : Nat} {len : UInt32} (h : serializeRecordFrame frame aad = .ok x)
    (hseg : SegAt bytes offset x) (hmax : bytes.length ≤ usizeMax) (hlen : len.toNat = x.length) :
    recordFrameLenAt bytes offset = .ok len := by
  have hct := (serializeRecordFrame_eq_ok.mp h).1
  have hle := hseg.le
  obtain ⟨-, -, -, -, hnonceLen, -, haadLen, -, hctLen, -⟩ := segAt_frame h hseg
  refine recordFrameLenAt_of_fields hnonceLen haadLen hctLen ?_ (by omega)
  rw [hlen, hct]
  exact length_of_serializeRecordFrame h

-- ============================================================ envelopes

/-- An envelope is written if neither part is empty and both lengths fit.
The reader refuses empty parts too. -/
theorem serializeItemRecordFrameEnvelope_eq_ok {envelope : ItemRecordFrameEnvelope} {x : Bytes} :
    serializeItemRecordFrameEnvelope envelope = .ok x
      ↔ envelope.wrappedRek ≠ [] ∧ envelope.encryptedPayload ≠ []
        ∧ ∃ rekLen payloadLen : UInt32, rekLen.toNat = envelope.wrappedRek.length
          ∧ payloadLen.toNat = envelope.encryptedPayload.length
          ∧ x = envelope.rekWrapNonce.toList ++ leU32 rekLen ++ envelope.wrappedRek
            ++ envelope.payloadNonce.toList ++ leU32 payloadLen ++ envelope.encryptedPayload := by
  simp only [serializeItemRecordFrameEnvelope, lenToU32, bind_eq_ok, rejectIf_eq_ok, okOr_eq_ok,
    u32TryFrom_eq_some, checkedAdd_eq_some, pure_eq_ok, Except.ok.injEq]
  constructor
  · rintro ⟨-, hrek, -, hpayload, rekLen, hrekLen, payloadLen, hpayloadLen, -, -, -, -, -, -, -, -,
      -, -, rfl⟩
    exact ⟨hrek, hpayload, rekLen, payloadLen, hrekLen, hpayloadLen, rfl⟩
  · rintro ⟨hrek, hpayload, rekLen, payloadLen, hrekLen, hpayloadLen, rfl⟩
    have hrekLt := rekLen.toNat_lt
    have hpayloadLt := payloadLen.toNat_lt
    have hnonce : xchacha20NonceLen = 24 := rfl
    have hmax : 2 ^ 34 ≤ usizeMax := by decide
    exact ⟨(), hrek, (), hpayload, rekLen, hrekLen, payloadLen, hpayloadLen, _, ⟨rfl, by omega⟩,
      _, ⟨rfl, by omega⟩, _, ⟨rfl, by omega⟩, _, ⟨rfl, by omega⟩, _, ⟨rfl, by omega⟩, rfl⟩

/-- A written envelope parses back. -/
theorem parseItemRecordFrameEnvelope_of_serialize {envelope : ItemRecordFrameEnvelope} {x : Bytes}
    (h : serializeItemRecordFrameEnvelope envelope = .ok x) :
    parseItemRecordFrameEnvelope x = .ok envelope := by
  obtain ⟨hrek, hpayload, rekLen, payloadLen, hrekLen, hpayloadLen, hx⟩ :=
    serializeItemRecordFrameEnvelope_eq_ok.mp h
  have hnonce : xchacha20NonceLen = 24 := rfl
  have hrekPos := List.length_pos_of_ne_nil hrek
  have hpayloadPos := List.length_pos_of_ne_nil hpayload
  -- two `u32` lengths and the fixed fields stay far below `usize::MAX`
  have hrekLt := rekLen.toNat_lt
  have hpayloadLt := payloadLen.toNat_lt
  have hmax : 2 ^ 34 ≤ usizeMax := by decide
  have hxlen : x.length = 56 + rekLen.toNat + payloadLen.toNat := by
    rw [hx]
    simp [hrekLen, hpayloadLen]
    omega
  have hseg := segAt_self x
  rw [hx] at hseg
  simp only [segAt_append, List.length_append, length_leU32, List.Vector.toList_length,
    Nat.reduceAdd, Nat.zero_add, ← hrekLen] at hseg
  rw [← hx] at hseg
  obtain ⟨⟨⟨⟨⟨h1, h2⟩, h3⟩, h4⟩, h5⟩, h6⟩ := hseg
  simp only [parseItemRecordFrameEnvelope, bind_eq_ok, okOr_eq_ok, checkedAdd_eq_some,
    usizeAdd_eq_ok, rejectIf_eq_ok, slice?_eq_some_iff, readU32Le_eq_ok, readArrayAt_eq_ok,
    pure_eq_ok, Except.ok.injEq, Decidable.not_not]
  exact ⟨envelope.rekWrapNonce, ⟨h1, by omega⟩, 24, ⟨rfl, by omega⟩, rekLen, ⟨h2, by omega⟩, 28,
    ⟨rfl, by omega⟩, (), by omega, _, ⟨rfl, by omega⟩, envelope.wrappedRek, ⟨h3, by omega⟩,
    envelope.payloadNonce, ⟨h4, by omega⟩, _, ⟨rfl, by omega⟩, payloadLen, ⟨h5, by omega⟩, _,
    ⟨rfl, by omega⟩, (), by omega, _, ⟨rfl, by omega⟩, envelope.encryptedPayload,
    ⟨h6, by omega⟩, (), by omega, rfl⟩

/-- Bytes are cut into an envelope in one way. -/
theorem serializeItemRecordFrameEnvelope_inj {envelope envelope' : ItemRecordFrameEnvelope}
    {x : Bytes} (h : serializeItemRecordFrameEnvelope envelope = .ok x)
    (h' : serializeItemRecordFrameEnvelope envelope' = .ok x) : envelope = envelope' := by
  have hparse := parseItemRecordFrameEnvelope_of_serialize h
  rw [parseItemRecordFrameEnvelope_of_serialize h', Except.ok.injEq] at hparse
  exact hparse.symm

-- ========================================================= sealed table

theorem le_nextPowerOfTwo (n : Nat) : n ≤ nextPowerOfTwo n := Nat.le_pow_clog (by decide) n

/-- The largest table: its padded plaintext must fit a `u32`. -/
def maxRecords : Nat := 2 ^ 26

/-- The bound is a power of two itself, so no bucket passes it. -/
theorem nextPowerOfTwo_le {n : Nat} (h : n ≤ maxRecords) : nextPowerOfTwo n ≤ maxRecords :=
  Nat.pow_le_pow_right (by decide) (Nat.clog_le_of_le_pow h)

/-- One record more, and the bucket is the next power of two. -/
theorem two_mul_le_nextPowerOfTwo {n : Nat} (h : maxRecords < n) :
    2 * maxRecords ≤ nextPowerOfTwo n := by
  have hlog : 26 < Nat.clog 2 n := (Nat.lt_clog_iff_pow_lt (by decide)).mpr h
  have hpow : 2 ^ 27 ≤ nextPowerOfTwo n := Nat.pow_le_pow_right (by decide) hlog
  have hmax : 2 * maxRecords = 2 ^ 27 := rfl
  omega

/-- The length of the sealed plaintext over `n` records. -/
def paddedTableLen (n : Nat) : Nat := recordTableCountLen + nextPowerOfTwo n * recordTableEntryLen

/-- The source treats an empty table apart; the next power of two of zero is
one all the same. -/
theorem sealedRecordTablePaddedPlaintextLen_eq_ok {n len : Nat} :
    sealedRecordTablePaddedPlaintextLen n = .ok len
      ↔ paddedTableLen n ≤ usizeMax ∧ len = paddedTableLen n := by
  have hbucket : (if n = 0 then .ok 1
      else okOr (checkedNextPowerOfTwo n) (formatError "sealed table bucket overflow") : Res Nat)
        = okOr (checkedNextPowerOfTwo n) (formatError "sealed table bucket overflow") := by
    by_cases hn : n = 0
    · subst hn
      rfl
    · rw [if_neg hn]
  have hentry : recordTableEntryLen = 46 := rfl
  rw [sealedRecordTablePaddedPlaintextLen, hbucket]
  simp only [bind_eq_ok, okOr_eq_ok, checkedMul_eq_some, checkedAdd_eq_some]
  constructor
  · rintro ⟨bucket, hb, _, ⟨rfl, -⟩, rfl, hle⟩
    have hb' : nextPowerOfTwo n = bucket := by
      unfold checkedNextPowerOfTwo at hb
      split at hb
      · exact Option.some.inj hb
      · cases hb
    subst hb'
    exact ⟨hle, rfl⟩
  · rintro ⟨hle, rfl⟩
    have hle' := hle
    rw [paddedTableLen, hentry] at hle'
    have hb : checkedNextPowerOfTwo n = some (nextPowerOfTwo n) := if_pos (by omega)
    exact ⟨_, hb, _, ⟨rfl, by rw [hentry]; omega⟩, rfl, hle⟩

/-- Up to the bound the sealed table fits its `u32`. -/
theorem paddedTableLen_lt {n : Nat} (h : n ≤ maxRecords) : paddedTableLen n + 100 < 2 ^ 32 := by
  have hle := Nat.mul_le_mul_right recordTableEntryLen (nextPowerOfTwo_le h)
  have hmax : recordTableCountLen + maxRecords * recordTableEntryLen + 100 < 2 ^ 32 := by decide
  rw [paddedTableLen]
  omega

/-- Above it the padded table alone does not. -/
theorem le_paddedTableLen {n : Nat} (h : maxRecords < n) : 2 ^ 32 ≤ paddedTableLen n := by
  have hle := Nat.mul_le_mul_right recordTableEntryLen (two_mul_le_nextPowerOfTwo h)
  have hmax : 2 ^ 32 ≤ recordTableCountLen + 2 * maxRecords * recordTableEntryLen := by decide
  rw [paddedTableLen]
  omega

theorem RecordTableEntry.length_toBytes (entry : RecordTableEntry) :
    entry.toBytes.length = recordTableEntryLen := by
  simp [toBytes, recordTableEntryLen]

/-- The kinds a V2 table may hold. -/
def AdmissibleKind (kind : UInt16) : Prop := ¬ (kind = 0 ∨ kind = recordKindWrappedRootKey)

instance (kind : UInt16) : Decidable (AdmissibleKind kind) := instDecidableNot

/-- The entries are written one after the other, and the first inadmissible
kind is an error. -/
theorem serializeTableEntriesV2_eq_ok {entries : List RecordTableEntry} {x : Bytes} :
    serializeTableEntriesV2 entries = .ok x
      ↔ (∀ entry ∈ entries, AdmissibleKind entry.recordKind)
        ∧ x = entries.flatMap RecordTableEntry.toBytes := by
  induction entries generalizing x with
  | nil =>
      simp only [serializeTableEntriesV2, Except.ok.injEq, List.flatMap_nil]
      constructor
      · rintro rfl
        exact ⟨by simp, rfl⟩
      · rintro ⟨-, rfl⟩
        rfl
  | cons entry entries ih =>
      simp only [serializeTableEntriesV2, bind_eq_ok, rejectIf_eq_ok, pure_eq_ok, Except.ok.injEq,
        ih, List.forall_mem_cons, List.flatMap_cons]
      constructor
      · rintro ⟨-, hkind, _, ⟨hkinds, rfl⟩, rfl⟩
        exact ⟨⟨hkind, hkinds⟩, rfl⟩
      · rintro ⟨⟨hkind, hkinds⟩, rfl⟩
        exact ⟨(), hkind, _, ⟨hkinds, rfl⟩, rfl⟩

theorem length_flatMap_toBytes (entries : List RecordTableEntry) :
    (entries.flatMap RecordTableEntry.toBytes).length = entries.length * recordTableEntryLen := by
  induction entries with
  | nil => simp
  | cons entry entries ih =>
      rw [List.flatMap_cons, List.length_append, ih, entry.length_toBytes, List.length_cons,
        Nat.succ_mul, Nat.add_comm]

/-- The frames the entries describe stand one after the other from
`start` to `stop`. -/
def FramesFrom : Nat → List RecordTableEntry → Nat → Prop
  | start, [], stop => start = stop
  | start, entry :: entries, stop =>
      entry.frameOffset.toNat = start ∧ FramesFrom (start + entry.frameLen.toNat) entries stop

theorem FramesFrom.le {start stop : Nat} {entries : List RecordTableEntry}
    (h : FramesFrom start entries stop) : start ≤ stop := by
  induction entries generalizing start with
  | nil => exact Nat.le_of_eq h
  | cons entry entries ih =>
      have hle := ih h.2
      omega

/-- The extents the scan collects. -/
def RecordTableEntry.extent (entry : RecordTableEntry) : Nat × Nat :=
  (entry.frameOffset.toNat, entry.frameOffset.toNat + entry.frameLen.toNat)

/-- The plaintext a table seals. -/
def tablePlaintext (count : UInt32) (entries : List RecordTableEntry) : Bytes :=
  resizeZero (leU32 count ++ entries.flatMap RecordTableEntry.toBytes)
    (paddedTableLen entries.length)

variable {cipher : XChaCha20Poly1305}

/-- What a table seals, and what its section is made of. -/
theorem serializeSealedRecordTableV2_eq_ok {draw : Option Nonce}
    {entries : List RecordTableEntry} {key : Key} {vaultId : U8Array 16} {schema : UInt16}
    {table : Bytes} :
    serializeSealedRecordTableV2 cipher draw entries key vaultId schema = .ok table
      ↔ schema = schemaMeissnerRecordsV2
        ∧ (∀ entry ∈ entries, AdmissibleKind entry.recordKind)
        ∧ paddedTableLen entries.length ≤ usizeMax
        ∧ ∃ count len : UInt32, ∃ nonce ciphertext, count.toNat = entries.length
          ∧ draw = some nonce
          ∧ cipher.encrypt key nonce (tablePlaintext count entries)
              (vaultId.toList ++ leU16 schema) = some ciphertext
          ∧ len.toNat = 24 + ciphertext.length
          ∧ table = leU32 len ++ nonce.toList ++ ciphertext := by
  have hnonce : xchacha20NonceLen = 24 := rfl
  simp only [serializeSealedRecordTableV2, buildTableAadV2, lenToU32, bind_eq_ok, rejectIf_eq_ok,
    okOr_eq_ok, u32TryFrom_eq_some, checkedAdd_eq_some, sealedRecordTablePaddedPlaintextLen_eq_ok,
    serializeTableEntriesV2_eq_ok, orErrUnwind_eq_ok, pure_eq_ok, Except.ok.injEq,
    Decidable.not_not, hnonce]
  constructor
  · rintro ⟨_, ⟨-, hschema, rfl⟩, _, ⟨hpad, rfl⟩, count, hcount, _, ⟨hkinds, rfl⟩,
      ⟨ciphertext, nonce⟩, henc, _, ⟨rfl, -⟩, len, hlen, -, -, rfl⟩
    obtain ⟨hdraw, henc⟩ := encrypt_eq_ok.mp henc
    exact ⟨hschema, hkinds, hpad, count, len, nonce, ciphertext, hcount, hdraw, henc, hlen, rfl⟩
  · rintro ⟨hschema, hkinds, hpad, count, len, nonce, ciphertext, hcount, hdraw, henc, hlen, rfl⟩
    have hlt := len.toNat_lt
    have hmax : 2 ^ 33 ≤ usizeMax := by decide
    exact ⟨_, ⟨(), hschema, rfl⟩, _, ⟨hpad, rfl⟩, count, hcount, _, ⟨hkinds, rfl⟩,
      (ciphertext, nonce), encrypt_eq_ok.mpr ⟨hdraw, henc⟩, _, ⟨rfl, by simp only; omega⟩, len,
      hlen, _, ⟨rfl, by omega⟩, rfl⟩

/-- The length of a table section over `n` records. -/
def tableSectionLen (n : Nat) : Nat := 4 + 24 + tagLen + paddedTableLen n

theorem length_tablePlaintext (count : UInt32) (entries : List RecordTableEntry) :
    (tablePlaintext count entries).length = paddedTableLen entries.length :=
  length_resizeZero ..

/-- The length of the table tells the bucket, not the number of records. -/
theorem length_of_serializeSealedRecordTableV2 {draw : Option Nonce}
    {entries : List RecordTableEntry} {key : Key} {vaultId : U8Array 16} {schema : UInt16}
    {table : Bytes}
    (h : serializeSealedRecordTableV2 cipher draw entries key vaultId schema = .ok table) :
    table.length = tableSectionLen entries.length := by
  obtain ⟨-, -, -, count, len, nonce, ciphertext, -, -, henc, -, rfl⟩ :=
    serializeSealedRecordTableV2_eq_ok.mp h
  have hct := cipher.length_encrypt henc
  rw [length_tablePlaintext] at hct
  simp [hct, tableSectionLen]
  omega

/-- A table seals when its nonce is drawn, every kind is admissible and it
is not over capacity. -/
theorem exists_serializeSealedRecordTableV2 {draw : Option Nonce} {nonce : Nonce}
    {entries : List RecordTableEntry} (key : Key) (vaultId : U8Array 16)
    (hdraw : draw = some nonce) (hkinds : ∀ entry ∈ entries, AdmissibleKind entry.recordKind)
    (hcount : entries.length ≤ maxRecords) :
    ∃ table, serializeSealedRecordTableV2 cipher draw entries key vaultId schemaMeissnerRecordsV2
      = .ok table := by
  have hpad := paddedTableLen_lt hcount
  have hsmall : 2 ^ 60 ≤ usizeMax := by decide
  have hcap : maxRecords = 2 ^ 26 := rfl
  have htag : tagLen = 16 := rfl
  have hplainLen : (tablePlaintext (UInt32.ofNat entries.length) entries).length < 2 ^ 32 := by
    rw [length_tablePlaintext]
    omega
  obtain ⟨ciphertext, henc⟩ : ∃ ciphertext, cipher.encrypt key nonce
      (tablePlaintext (UInt32.ofNat entries.length) entries)
      (vaultId.toList ++ leU16 schemaMeissnerRecordsV2) = some ciphertext :=
    exists_encrypt key nonce _ hplainLen
  have hctLen := cipher.length_encrypt henc
  rw [length_tablePlaintext] at hctLen
  exact ⟨_, serializeSealedRecordTableV2_eq_ok.mpr ⟨rfl, hkinds, by omega,
    UInt32.ofNat entries.length, UInt32.ofNat (24 + ciphertext.length), nonce, ciphertext,
    toNat_u32_ofNat (by omega), hdraw, henc, toNat_u32_ofNat (by omega), rfl⟩⟩

end MeissnerSeal
