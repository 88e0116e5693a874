/-
What a history seals for its items, and what reading one asks to open.

# The log

Two encryptions go into an item: its payload under a key of its own, and
that key under the item wrap key of the vault, both with the associated
data of the record (`VaultIdentity.ItemLog`). Where no record was given one
revision twice, that data tells the calls of a history apart
(`sealing_unique`).

# What a read asks

`read_item` compares the ids a frame tells with those of its entry, and
asks for the two decryptions of the envelope inside (`ItemAsks`). Where
only the log opens, the envelope is the one the record was built with,
whatever the rest of the frame has become
(`VaultIdentity.envelope_of_opens`).
-/
import MeissnerSeal.Vault.Provenance
import MeissnerSeal.Crypto.Sealing

namespace MeissnerSeal

open ByteCodec ExceptRules

variable {β : Type} {platform : Platform} {v : VaultIdentity platform} {calls : Calls β}

-- ==================================================================== calls

/-- A call that seals an item for a record, with its draws. -/
structure ItemSealing where
  draws : Draws
  recordId : ItemId
  item : PlainItem

/-- What a call seals. -/
def StoreCall.sealings (platform : Platform) : StoreCall β → List ItemSealing
  | .mutate env (.add item) => (env.draws.recordId.map fun id => ⟨env.draws, id, item⟩).toList
  | .mutate env (.update id item) => [⟨env.draws, id, item⟩]
  | .mutate _ (.delete _) => []
  | .list _ => []
  | .withItem _ _ _ => []
  | .importBundle env bundle passphrase =>
      match authenticate platform bundle passphrase with
      | .ok items => items.zipIdx.filterMap fun entry =>
          (env.idAt entry.2).map fun id => ⟨(env.adds entry.2).draws, id, entry.1⟩
      | .error _ => []

def sealings (platform : Platform) (calls : Calls β) : List ItemSealing :=
  calls.flatMap fun entry => entry.1.sealings platform

/-- The revisions a history gives its records. -/
def sealedRevisions (platform : Platform) (calls : Calls β) : List (ItemId × U8Array 16) :=
  (sealings platform calls).filterMap fun s =>
    s.draws.revisionId.map fun revisionId => (s.recordId, revisionId)

theorem SealsItem.mem_sealings {draws : Draws} {id : ItemId} {item : PlainItem}
    (h : SealsItem platform calls draws id item) : ⟨draws, id, item⟩ ∈ sealings platform calls := by
  rw [sealings, List.mem_flatMap]
  cases h with
  | added hcall hid => exact ⟨_, hcall, by simp [StoreCall.sealings, hid]⟩
  | updated hcall => exact ⟨_, hcall, List.mem_singleton_self _⟩
  | @imported importEnv _ _ _ _ i _ _ hcall hitems hitem hid =>
      refine ⟨_, hcall, ?_⟩
      have hmem : (item, i) ∈ List.zipIdx _ := List.mem_zipIdx_iff_getElem?.mpr hitem
      simp only [StoreCall.sealings, hitems]
      exact List.mem_filterMap.mpr ⟨_, hmem, by simp [ImportEnv.idAt, hid]⟩

/-- A record and its revision tell the call that sealed it. -/
theorem sealing_unique (hrevisions : (sealedRevisions platform calls).Nodup) {s s' : ItemSealing}
    {revisionId : U8Array 16} (hs : s ∈ sealings platform calls)
    (hs' : s' ∈ sealings platform calls)
    (hid : s.recordId = s'.recordId) (hrevision : s.draws.revisionId = some revisionId)
    (hrevision' : s'.draws.revisionId = some revisionId) : s = s' := by
  have hpair : (s.draws.revisionId.map fun revisionId => (s.recordId, revisionId))
      = some (s.recordId, revisionId) := by rw [hrevision, Option.map_some]
  refine hrevisions.eq_of_filterMap hs hs' hpair ?_
  rw [hrevision', Option.map_some, hid]

-- ==================================================================== the log

/-- What the program seals, as far as it concerns items: the two
encryptions of every call that seals one, and whatever else is sealed with
other associated data. -/
inductive VaultIdentity.ItemLog (v : VaultIdentity platform) (calls : Calls β) :
    Sealing → Prop where
  | wrap {s : ItemSealing} {revisionId : U8Array 16} {rek : Key} {nonce : Nonce}
        {ciphertext : Bytes}
      (hs : s ∈ sealings platform calls) (hrevision : s.draws.revisionId = some revisionId)
      (hrek : s.draws.rek = some rek) (hnonce : s.draws.rekWrapNonce = some nonce)
      (hencrypt : platform.cipher.encrypt v.keys.itemWrapKey nonce rek.toList
        (itemRecordAad v.header s.recordId revisionId recordKindItem).toList = some ciphertext) :
      v.ItemLog calls ⟨v.keys.itemWrapKey, nonce,
        (itemRecordAad v.header s.recordId revisionId recordKindItem).toList, ciphertext⟩
  | payload {s : ItemSealing} {revisionId : U8Array 16} {rek : Key} {nonce : Nonce}
      {payload ciphertext : Bytes} (hs : s ∈ sealings platform calls)
      (hrevision : s.draws.revisionId = some revisionId) (hrek : s.draws.rek = some rek)
      (hnonce : s.draws.payloadNonce = some nonce) (hpayload : serializeItemPayload s.item
        = .ok payload)
      (hencrypt : platform.cipher.encrypt rek nonce payload
        (itemRecordAad v.header s.recordId revisionId recordKindItem).toList = some ciphertext) :
      v.ItemLog calls ⟨rek, nonce,
        (itemRecordAad v.header s.recordId revisionId recordKindItem).toList, ciphertext⟩
  | other {s : Sealing} (haad : ∀ recordId revisionId,
      s.aad ≠ (itemRecordAad v.header recordId revisionId recordKindItem).toList) :
        v.ItemLog calls s

-- ==================================================================== a read

/-- The envelope `read_item` finds under an entry. -/
def EnvelopeAt (bytes : Bytes) (header : VaultHeader) (entry : RecordTableEntry)
    (envelope : ItemRecordFrameEnvelope) : Prop :=
  ∃ tail frame, slice? bytes entry.frameOffset.toNat bytes.length = some tail
    ∧ parseRecordFrame tail entry.frameLen header.aeadProfile = .ok frame
    ∧ frame.recordId = entry.recordId ∧ frame.revisionId = entry.revisionId
    ∧ parseItemRecordFrameEnvelope frame.ciphertext = .ok envelope

/-- The associated data `read_item` expects. -/
abbrev RecordTableEntry.itemAad (header : VaultHeader) (entry : RecordTableEntry) : Bytes :=
  (itemRecordAad header entry.recordId entry.revisionId recordKindItem).toList

/-- What `read_item` asks the cipher to decrypt. -/
inductive ItemAsks (platform : Platform) (keys : UnlockedKeys) (header : VaultHeader)
    (bytes : Bytes)
    (entry : RecordTableEntry) : Sealing → Prop where
  | wrap {envelope : ItemRecordFrameEnvelope} (henvelope : EnvelopeAt bytes header entry envelope) :
      ItemAsks platform keys header bytes entry ⟨keys.itemWrapKey, envelope.rekWrapNonce,
        entry.itemAad header, envelope.wrappedRek⟩
  | payload {envelope : ItemRecordFrameEnvelope} {rek : Key}
      (henvelope : EnvelopeAt bytes header entry envelope)
      (hrek : decrypt platform.cipher keys.itemWrapKey envelope.rekWrapNonce envelope.wrappedRek
        (entry.itemAad header) = .ok rek.toList) :
      ItemAsks platform keys header bytes entry ⟨rek, envelope.payloadNonce, entry.itemAad header,
        envelope.encryptedPayload⟩

/-- `read_item`, as what it finds and opens. -/
theorem readItem_eq_ok {session : UnlockedVault} {loaded : LoadedVault} {entry : RecordTableEntry}
    {decoded : DecodedItem} :
    readItem platform session loaded entry = .ok decoded
      ↔ ∃ (envelope : ItemRecordFrameEnvelope) (rek : Key) (payload : Bytes),
        EnvelopeAt loaded.bytes loaded.header entry envelope
        ∧ decrypt platform.cipher session.keys.itemWrapKey envelope.rekWrapNonce envelope.wrappedRek
            (entry.itemAad loaded.header) = .ok rek.toList
        ∧ decrypt platform.cipher rek envelope.payloadNonce envelope.encryptedPayload
            (entry.itemAad loaded.header) = .ok payload
        ∧ deserializeItemPayload payload = .ok decoded := by
  simp only [readItem, bind_eq_ok, okOr_eq_ok, rejectIf_eq_ok, orErr_eq_ok, readArray_eq_ok, not_or,
    Decidable.not_not]
  constructor
  · rintro ⟨tail, htail, frame, hframe, -, ⟨hid, hrevision⟩, envelope, henvelope, _, hrek, rek, rfl,
      payload, hpayload, hdecoded⟩
    exact ⟨envelope, rek, payload, ⟨tail, frame, htail, hframe, hid, hrevision, henvelope⟩, hrek,
      hpayload, hdecoded⟩
  · rintro ⟨envelope, rek, payload, ⟨tail, frame, htail, hframe, hid, hrevision, henvelope⟩, hrek,
      hpayload, hdecoded⟩
    exact ⟨tail, htail, frame, hframe, (), ⟨hid, hrevision⟩, envelope, henvelope, _, hrek, rek, rfl,
      payload, hpayload, hdecoded⟩

/-- Draws in which no item's key is the wrapping key itself. -/
def VaultIdentity.RekFresh (v : VaultIdentity platform) (calls : Calls β) : Prop :=
  ∀ s ∈ sealings platform calls, s.draws.rek ≠ some v.keys.itemWrapKey

section Opens

variable {draws : Draws} {recordId revisionId : U8Array 16} {item : PlainItem} {key rek : Key}
  {nonce : Nonce} {ciphertext : Bytes}

/-- What opens under the wrapping key is the wrapped key of the call that
sealed the record. -/
theorem VaultIdentity.ItemLog.wrap_of (h : v.ItemLog calls ⟨v.keys.itemWrapKey, nonce,
      (itemRecordAad v.header recordId revisionId recordKindItem).toList, ciphertext⟩)
    (hrevisions : (sealedRevisions platform calls).Nodup) (hfresh : v.RekFresh calls)
    (hs : ⟨draws, recordId, item⟩ ∈ sealings platform calls)
    (hrevision : draws.revisionId = some revisionId) :
    ∃ rek, draws.rek = some rek ∧ draws.rekWrapNonce = some nonce
      ∧ platform.cipher.encrypt v.keys.itemWrapKey nonce rek.toList
          (itemRecordAad v.header recordId revisionId recordKindItem).toList = some ciphertext := by
  generalize hsealing : Sealing.mk v.keys.itemWrapKey nonce
    (itemRecordAad v.header recordId revisionId recordKindItem).toList ciphertext = x at h
  cases h with
  | @wrap s revisionId' rek nonce' _ hs' hrevision' hrek hnonce hencrypt =>
      obtain ⟨-, rfl, haad, rfl⟩ := Sealing.mk.inj hsealing
      obtain ⟨-, hid, rfl, -⟩ := aadBytes_inj haad
      obtain rfl := sealing_unique hrevisions hs hs' hid hrevision hrevision'
      exact ⟨rek, hrek, hnonce, hencrypt⟩
  | payload hs' _ hrek _ _ _ =>
      obtain ⟨rfl, -⟩ := Sealing.mk.inj hsealing
      exact absurd hrek (hfresh _ hs')
  | other haad =>
      exact absurd (congrArg Sealing.aad hsealing).symm (haad recordId revisionId)

/-- What opens under an item's own key is its payload. -/
theorem VaultIdentity.ItemLog.payload_of (h : v.ItemLog calls ⟨rek, nonce,
      (itemRecordAad v.header recordId revisionId recordKindItem).toList, ciphertext⟩)
    (hrevisions : (sealedRevisions platform calls).Nodup) (hrek : rek ≠ v.keys.itemWrapKey)
    (hs : ⟨draws, recordId, item⟩ ∈ sealings platform calls)
    (hrevision : draws.revisionId = some revisionId) :
    draws.payloadNonce = some nonce ∧ ∃ payload, serializeItemPayload item = .ok payload
      ∧ platform.cipher.encrypt rek nonce payload
          (itemRecordAad v.header recordId revisionId recordKindItem).toList = some ciphertext := by
  generalize hsealing : Sealing.mk rek nonce
    (itemRecordAad v.header recordId revisionId recordKindItem).toList ciphertext = x at h
  cases h with
  | wrap _ _ _ _ _ =>
      obtain ⟨rfl, -⟩ := Sealing.mk.inj hsealing
      exact absurd rfl hrek
  | @payload s revisionId' rek' nonce' payload _ hs' hrevision' _ hnonce hpayload hencrypt =>
      obtain ⟨rfl, rfl, haad, rfl⟩ := Sealing.mk.inj hsealing
      obtain ⟨-, hid, rfl, -⟩ := aadBytes_inj haad
      obtain rfl := sealing_unique hrevisions hs hs' hid hrevision hrevision'
      exact ⟨hnonce, payload, hpayload, hencrypt⟩
  | other haad =>
      exact absurd (congrArg Sealing.aad hsealing).symm (haad recordId revisionId)

end Opens

/-- An envelope that opens, where only the log does, is the one the record
was built with. -/
theorem VaultIdentity.envelope_of_opens {draws : Draws} {item : PlainItem} {record : PendingRecord}
    {entry : RecordTableEntry} {bytes payload : Bytes}
    {envelope : ItemRecordFrameEnvelope} {rek : Key}
    (hrevisions : (sealedRevisions platform calls).Nodup) (hfresh : v.RekFresh calls)
    (hseals : SealsItem platform calls draws record.recordId item)
    (hholds : record.HoldsItem platform draws v.keys.itemWrapKey v.header item)
    (hid : entry.recordId = record.recordId) (hrevision : entry.revisionId = record.revisionId)
    (hauth : Authentic platform.cipher (ItemAsks platform v.keys v.header bytes entry)
      (v.ItemLog calls))
    (henvelope : EnvelopeAt bytes v.header entry envelope)
    (hrek : decrypt platform.cipher v.keys.itemWrapKey envelope.rekWrapNonce envelope.wrappedRek
      (entry.itemAad v.header) = .ok rek.toList)
    (hpayload : decrypt platform.cipher rek envelope.payloadNonce envelope.encryptedPayload
      (entry.itemAad v.header) = .ok payload) :
    ∃ (len : UInt32) (frameNonce : Nonce) (envelopeBytes : Bytes),
      serializeItemRecordFrameEnvelope envelope = .ok envelopeBytes
      ∧ serializeRecordFrame ⟨formatVersion, record.recordId, record.revisionId, frameNonce,
          itemRecordAad v.header record.recordId record.revisionId recordKindItem, len,
          envelopeBytes⟩ (itemRecordAad v.header record.recordId record.revisionId recordKindItem)
        = .ok record.frameBytes := by
  obtain ⟨len, frameNonce, rekWrapNonce, payloadNonce, rek₀, payload₀, wrapped, ct, envelopeBytes,
    hrek₀, hpayloadNonce, hrekWrapNonce, -, hser, hct, hwrapped, hbytes, -, hframe, -⟩ :=
    of_buildItemFrame hholds.frameBytes
  have hmem := hseals.mem_sealings
  -- the key opens as it was wrapped
  have hwrap := hauth _ (.wrap henvelope) ⟨_, hrek⟩
  have hopened := hauth _ (.payload henvelope hrek) ⟨_, hpayload⟩
  rw [RecordTableEntry.itemAad, hid, hrevision] at hwrap hopened hrek
  obtain ⟨rek', hrek', hnonce', hencrypt'⟩ := hwrap.wrap_of hrevisions hfresh hmem hholds.revisionId
  obtain rfl : rek₀ = rek' := Option.some.inj (hrek₀.symm.trans hrek')
  obtain rfl : rekWrapNonce = envelope.rekWrapNonce :=
    Option.some.inj (hrekWrapNonce.symm.trans hnonce')
  obtain rfl : wrapped = envelope.wrappedRek := Option.some.inj (hwrapped.symm.trans hencrypt')
  rw [decrypt_of_encrypt hwrapped, Except.ok.injEq] at hrek
  obtain rfl : rek₀ = rek := List.Vector.toList_injective hrek
  -- and so does the payload
  have hne : rek₀ ≠ v.keys.itemWrapKey := by
    rintro rfl
    exact hfresh _ hmem hrek₀
  obtain ⟨hnonce, payload', hser', hencrypt⟩ :=
    hopened.payload_of hrevisions hne hmem hholds.revisionId
  obtain rfl : payloadNonce = envelope.payloadNonce :=
    Option.some.inj (hpayloadNonce.symm.trans hnonce)
  obtain rfl : payload₀ = payload' := Except.ok.inj (hser.symm.trans hser')
  obtain rfl : ct = envelope.encryptedPayload := Option.some.inj (hct.symm.trans hencrypt)
  exact ⟨len, frameNonce, envelopeBytes, hbytes, hframe⟩

end MeissnerSeal
