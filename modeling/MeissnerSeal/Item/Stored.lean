/-
What a vault file stores: the abstraction from a file's bytes to the
ordered map of its items.

# The abstraction

`RecordHolds v record content` says what one frame means: an item frame
opens under the vault's keys to the payload of an item, a tombstone
frame to nothing. `Stored v m bytes` says that `bytes` is the image of
records holding the entries of `m`, in order. Deciding what a file
stores needs the keys; deciding how long it is does not
(`Stored.length_eq`).
-/
import MeissnerSeal.Vault.Image
import MeissnerSeal.Lib.TombstoneMap

namespace MeissnerSeal

open ByteCodec ExceptRules

variable {platform : Platform} (v : VaultIdentity platform)

/-- The frame of a record opens, under the vault's wrapping key and the
record's own AAD, to the payload of an item. -/
def FrameHolds (record : PendingRecord) (item : PlainItem) : Prop :=
  ∃ (frame : RecordFrame) (envelope : ItemRecordFrameEnvelope) (rek : Key) (payload : Bytes),
    serializeRecordFrame frame frame.storedAad = .ok record.frameBytes
    ∧ frame.frameVersion = formatVersion ∧ frame.recordId = record.recordId
    ∧ frame.revisionId = record.revisionId
    ∧ serializeItemRecordFrameEnvelope envelope = .ok frame.ciphertext
    ∧ decrypt platform.cipher v.keys.itemWrapKey envelope.rekWrapNonce envelope.wrappedRek
        (itemRecordAad v.header record.recordId record.revisionId recordKindItem).toList
        = .ok rek.toList
    ∧ decrypt platform.cipher rek envelope.payloadNonce envelope.encryptedPayload
        (itemRecordAad v.header record.recordId record.revisionId recordKindItem).toList
        = .ok payload
    ∧ serializeItemPayload item = .ok payload

/-- The length of the frame that stores a content. -/
def storedFrameLen : Option PlainItem → Nat
  | some item => 268 + item.payloadLen
  | none => 148

/-- What a record means: an item, or a tombstone. -/
def RecordHolds (record : PendingRecord) : Option PlainItem → Prop
  | some item => record.recordKind = recordKindItem ∧ FrameHolds v record item
      ∧ record.frameBytes.length = storedFrameLen (some item)
  | none => record.recordKind = recordKindTombstone
      ∧ record.frameBytes.length = storedFrameLen none

/-- A record and the entry of the map it stores. -/
def RecordFor (record : PendingRecord) (entry : ItemId × Option PlainItem) : Prop :=
  record.recordId = entry.1 ∧ RecordHolds v record entry.2

/-- The items of a vault, deleted ones included. -/
abbrev ItemMap := TombstoneMap ItemId PlainItem

/-- `bytes` is a file of vault `v` that stores `m`. -/
def Stored (m : ItemMap) (bytes : Bytes) : Prop :=
  ∃ records, Image v records bytes ∧ List.Forall₂ (RecordFor v) records m.entries

/-- The length of a file that stores `m`. -/
def storedLen (m : ItemMap) : Nat :=
  imageLen (m.entries.map fun entry => storedFrameLen entry.2)

variable {v}

theorem RecordHolds.length_eq {record : PendingRecord} {content : Option PlainItem}
    (h : RecordHolds v record content) : record.frameBytes.length = storedFrameLen content := by
  cases content with
  | none => exact h.2
  | some item => exact h.2.2

theorem RecordHolds.admissible {record : PendingRecord} {content : Option PlainItem}
    (h : RecordHolds v record content) : AdmissibleKind record.recordKind := by
  cases content with
  | none =>
      rw [h.1]
      decide
  | some item =>
      rw [h.1]
      decide

theorem length_map_frames {records : List PendingRecord}
    {entries : List (ItemId × Option PlainItem)}
    (h : List.Forall₂ (RecordFor v) records entries) :
    records.map (fun record => record.frameBytes.length)
      = entries.map fun entry => storedFrameLen entry.2 := by
  induction h with
  | nil => rfl
  | cons hrecord _ ih => rw [List.map_cons, List.map_cons, ih, hrecord.2.length_eq]

/-- A file's length is that of its map. -/
theorem Stored.length_eq {m : ItemMap} {bytes : Bytes} (h : Stored v m bytes) :
    bytes.length = storedLen m := by
  obtain ⟨records, himage, hrecords⟩ := h
  obtain ⟨-, -, -, -, -, -, -, -, -, -, hlen, -⟩ := himage.parts
  rw [hlen, length_map_frames hrecords, storedLen]

-- =============================================================== writing

/-- The record frame around a ciphertext. -/
theorem buildRecordFrame_eq_ok {draws : Draws} {recordId revisionId : U8Array 16}
    {ciphertext x : Bytes} {aad : U8Array recordAadLen} :
    buildRecordFrame draws recordId revisionId ciphertext aad = .ok x
      ↔ ∃ (len : UInt32) (nonce : Nonce), len.toNat = ciphertext.length
          ∧ draws.frameNonce = some nonce
          ∧ serializeRecordFrame
              ⟨formatVersion, recordId, revisionId, nonce, aad, len, ciphertext⟩ aad = .ok x := by
  simp only [buildRecordFrame, u32Len, bind_eq_ok, okOr_eq_ok, u32TryFrom_eq_some]
  constructor
  · rintro ⟨len, hlen, nonce, hnonce, h⟩
    exact ⟨len, nonce, hlen, hnonce, h⟩
  · rintro ⟨len, nonce, hlen, hnonce, h⟩
    exact ⟨len, hlen, nonce, hnonce, h⟩

/-- A tombstone frame is 148 bytes. -/
theorem length_of_tombstoneFrame {draws : Draws} {recordId revisionId : U8Array 16} {x : Bytes}
    {aad : U8Array recordAadLen}
    (h : buildRecordFrame draws recordId revisionId [] aad = .ok x) :
    x.length = storedFrameLen none := by
  obtain ⟨len, nonce, -, -, hframe⟩ := buildRecordFrame_eq_ok.mp h
  exact length_of_serializeRecordFrame hframe

/-- What `buildItemFrame` seals: the payload under a fresh key, that key
under the item wrap key, both with the associated data of the record. -/
theorem of_buildItemFrame {draws : Draws} {item : PlainItem} {itemWrapKey : Key}
    {header : VaultHeader} {recordId revisionId : U8Array 16} {x : Bytes}
    (h : buildItemFrame platform draws item itemWrapKey header recordId revisionId = .ok x) :
    ∃ (len : UInt32) (frameNonce rekWrapNonce payloadNonce : Nonce) (rek : Key)
      (payload wrapped ct envelopeBytes : Bytes),
      draws.rek = some rek ∧ draws.payloadNonce = some payloadNonce
      ∧ draws.rekWrapNonce = some rekWrapNonce ∧ draws.frameNonce = some frameNonce
      ∧ serializeItemPayload item = .ok payload
      ∧ platform.cipher.encrypt rek payloadNonce payload
          (itemRecordAad header recordId revisionId recordKindItem).toList = some ct
      ∧ platform.cipher.encrypt itemWrapKey rekWrapNonce rek.toList
          (itemRecordAad header recordId revisionId recordKindItem).toList = some wrapped
      ∧ serializeItemRecordFrameEnvelope ⟨rekWrapNonce, wrapped, payloadNonce, ct⟩
          = .ok envelopeBytes
      ∧ len.toNat = envelopeBytes.length
      ∧ serializeRecordFrame ⟨formatVersion, recordId, revisionId, frameNonce,
          itemRecordAad header recordId revisionId recordKindItem, len, envelopeBytes⟩
          (itemRecordAad header recordId revisionId recordKindItem) = .ok x
      ∧ x.length = storedFrameLen (some item) := by
  simp only [buildItemFrame, bind_eq_ok, okOr_eq_ok, orErrUnwind_eq_ok] at h
  obtain ⟨payload, hpayload, rek, hrek, ⟨ct, payloadNonce⟩, hct, ⟨wrapped, wrapNonce⟩, hwrap,
    envelopeBytes, henvelope, hframe⟩ := h
  obtain ⟨hpayloadDraw, hct⟩ := encrypt_eq_ok.mp hct
  obtain ⟨hwrapDraw, hwrap⟩ := encrypt_eq_ok.mp hwrap
  obtain ⟨len, nonce, hlen, hnonce, hframe⟩ := buildRecordFrame_eq_ok.mp hframe
  refine ⟨len, nonce, wrapNonce, payloadNonce, rek, payload, wrapped, ct, envelopeBytes, hrek,
    hpayloadDraw, hwrapDraw, hnonce, hpayload, hct, hwrap, henvelope, hlen, hframe, ?_⟩
  obtain ⟨-, -, rekLen, payloadLen, -, -, rfl⟩ :=
    serializeItemRecordFrameEnvelope_eq_ok.mp henvelope
  have hctLen := platform.cipher.length_encrypt hct
  have hwrapLen := platform.cipher.length_encrypt hwrap
  have htag : tagLen = 16 := rfl
  rw [length_of_serializeItemPayload hpayload] at hctLen
  rw [List.Vector.toList_length] at hwrapLen
  have hframeLen := length_of_serializeRecordFrame hframe
  simp only [frameLenFor, List.length_append, List.Vector.toList_length, length_leU32] at hframeLen
  simp only [storedFrameLen]
  omega

/-- What `buildItemFrame` writes holds the item. -/
theorem holds_of_buildItemFrame {draws : Draws} {item : PlainItem}
    {recordId revisionId : U8Array 16} {x : Bytes}
    (h : buildItemFrame platform draws item v.keys.itemWrapKey v.header recordId revisionId
      = .ok x) :
    RecordHolds v ⟨recordId, recordKindItem, revisionId, x⟩ (some item)
      ∧ draws.rek.isSome ∧ draws.payloadNonce.isSome ∧ draws.rekWrapNonce.isSome
      ∧ draws.frameNonce.isSome := by
  obtain ⟨len, frameNonce, wrapNonce, payloadNonce, rek, payload, wrapped, ct, envelopeBytes, hrek,
    hpayloadDraw, hwrapDraw, hnonce, hpayload, hct, hwrap, henvelope, -, hframe, hlen⟩ :=
    of_buildItemFrame h
  exact ⟨⟨rfl, ⟨_, ⟨wrapNonce, wrapped, payloadNonce, ct⟩, rek, payload, hframe, rfl, rfl, rfl,
    henvelope, decrypt_of_encrypt hwrap, decrypt_of_encrypt hct, hpayload⟩, hlen⟩, by simp [hrek],
    by simp [hpayloadDraw], by simp [hwrapDraw], by simp [hnonce]⟩

/-- An item frame is built when its four values are drawn and it
fits a `u32`. -/
theorem exists_buildItemFrame {draws : Draws} {item : PlainItem} {rek : Key}
    {payloadNonce rekWrapNonce frameNonce : Nonce} {itemWrapKey : Key} {header : VaultHeader}
    (recordId revisionId : U8Array 16)
    (hrek : draws.rek = some rek) (hpayload : draws.payloadNonce = some payloadNonce)
    (hwrap : draws.rekWrapNonce = some rekWrapNonce)
    (hframe : draws.frameNonce = some frameNonce)
    (hlen : storedFrameLen (some item) < 2 ^ 32) :
    ∃ x, buildItemFrame platform draws item itemWrapKey header recordId revisionId
      = .ok x := by
  rw [storedFrameLen] at hlen
  obtain ⟨payload, hser⟩ := exists_serializeItemPayload (by omega : item.payloadLen < 2 ^ 32)
  have hpayloadLen := length_of_serializeItemPayload hser
  have htag : tagLen = 16 := rfl
  generalize haad : (itemRecordAad header recordId revisionId recordKindItem).toList = aad
  obtain ⟨ct, hct⟩ := exists_encrypt rek payloadNonce aad (by omega : payload.length < 2 ^ 32)
  obtain ⟨wrapped, hwrapped⟩ := exists_encrypt itemWrapKey rekWrapNonce aad
    (by rw [List.Vector.toList_length]; decide : rek.toList.length < 2 ^ 32)
  have hctLen := platform.cipher.length_encrypt hct
  have hwrappedLen := platform.cipher.length_encrypt hwrapped
  rw [List.Vector.toList_length] at hwrappedLen
  have henvelope : serializeItemRecordFrameEnvelope ⟨rekWrapNonce, wrapped, payloadNonce, ct⟩
      = .ok (rekWrapNonce.toList ++ leU32 (UInt32.ofNat wrapped.length) ++ wrapped
          ++ payloadNonce.toList ++ leU32 (UInt32.ofNat ct.length) ++ ct) := by
    refine serializeItemRecordFrameEnvelope_eq_ok.mpr ⟨?_, ?_, _, _,
      toNat_u32_ofNat (by simp only; omega), toNat_u32_ofNat (by simp only; omega), rfl⟩
    · exact List.ne_nil_of_length_pos (by simp only; omega)
    · exact List.ne_nil_of_length_pos (by simp only; omega)
  generalize henvelopeBytes : rekWrapNonce.toList ++ leU32 (UInt32.ofNat wrapped.length) ++ wrapped
    ++ payloadNonce.toList ++ leU32 (UInt32.ofNat ct.length) ++ ct = envelopeBytes at henvelope
  have henvelopeLen := congrArg List.length henvelopeBytes
  simp only [List.length_append, List.Vector.toList_length, length_leU32] at henvelopeLen
  have hu32 : (UInt32.ofNat envelopeBytes.length).toNat = envelopeBytes.length :=
    toNat_u32_ofNat (by omega)
  obtain ⟨x, hx⟩ : ∃ x, buildRecordFrame draws recordId revisionId envelopeBytes
      (itemRecordAad header recordId revisionId recordKindItem) = .ok x :=
    ⟨_, buildRecordFrame_eq_ok.mpr ⟨_, frameNonce, hu32, hframe,
      serializeRecordFrame_eq_ok.mpr ⟨hu32, rfl⟩⟩⟩
  refine ⟨x, ?_⟩
  simp only [buildItemFrame, bind_eq_ok, okOr_eq_ok, orErrUnwind_eq_ok, haad]
  exact ⟨payload, hser, rek, hrek, (ct, payloadNonce), encrypt_eq_ok.mpr ⟨hpayload, hct⟩,
    (wrapped, rekWrapNonce), encrypt_eq_ok.mpr ⟨hwrap, hwrapped⟩, envelopeBytes, henvelope, hx⟩

/-- A tombstone frame is built when its nonce is drawn. -/
theorem exists_tombstoneFrame {draws : Draws} {frameNonce : Nonce}
    (recordId revisionId : U8Array 16) (aad : U8Array recordAadLen)
    (hframe : draws.frameNonce = some frameNonce) :
    ∃ x, buildRecordFrame draws recordId revisionId [] aad = .ok x :=
  ⟨_, buildRecordFrame_eq_ok.mpr ⟨0, frameNonce, rfl, hframe,
    serializeRecordFrame_eq_ok.mpr ⟨rfl, rfl⟩⟩⟩

-- =============================================================== reading

/-- Reading the frame of a stored item decodes the item's payload. -/
theorem readItem_of_holds {session : UnlockedVault} {loaded : LoadedVault}
    {entry : RecordTableEntry} {record : PendingRecord} {item : PlainItem} {decoded : DecodedItem}
    (hkeys : session.keys = v.keys) (hheader : loaded.header = v.header)
    (hentry : EntryFor loaded.bytes entry record) (hholds : RecordHolds v record (some item)) :
    readItem platform session loaded entry = .ok decoded
      ↔ item.WithinLimits ∧ decoded = item.view := by
  obtain ⟨-, ⟨frame, envelope, rek, payload, hframe, hversion, hid, hrevision, henvelope, hrek,
    hpayload, hser⟩, hlen⟩ := hholds
  obtain ⟨tail, htail, htailLen, hhead⟩ := hentry.frame.exists_tail
  have hframeLen := length_of_serializeRecordFrame hframe
  have hle := hentry.frame.le
  have hlt := entry.frameLen.toNat_lt
  rw [hentry.frameLen, hlen] at hlt
  rw [frameLenFor, hlen] at hframeLen
  rw [storedFrameLen] at hlt hframeLen
  have hslice : slice? loaded.bytes entry.frameOffset.toNat loaded.bytes.length = some tail :=
    slice?_eq_some_iff.mpr ⟨htail, htailLen⟩
  have hparse : parseRecordFrame tail entry.frameLen v.header.aeadProfile = .ok frame := by
    rw [v.profiles.2.2]
    exact parseRecordFrame_of_segAt hframe hversion (by omega) hhead hentry.frameLen
  have hids : ¬ (frame.recordId ≠ record.recordId ∨ frame.revisionId ≠ record.revisionId) := by
    rw [hid, hrevision]
    simp
  have hsmall : 2 ^ 33 ≤ usizeMax := by decide
  have henv := parseItemRecordFrameEnvelope_of_serialize henvelope
  have harray : readArray 32 rek.toList "" = .ok rek := readArray_eq_ok.mpr rfl
  have hpayloadLen := length_of_serializeItemPayload hser
  simp only [readItem, hslice, okOr_some, ok_bind, hparse, rejectIf_neg _ hids, henv,
    hheader, hkeys, hentry.recordId, hentry.revisionId, hrek, orErr_ok, harray, hpayload]
  exact deserializeItemPayload_of_serialize hser (by omega)

end MeissnerSeal
