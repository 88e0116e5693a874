/-
What the password protects: a file `unlock` accepts is made of the
vault's own sealings.

# The log

`VaultIdentity.Seals` is what the program seals for a vault over its
life: the root key, once, under the key the password derives; the table
of any file of the vault, under its metadata key; items and tombstones,
under whatever key, with the associated data of their record. It is the
log an ideal cipher is held to, and it grants an adversary every version
of the file.

# What follows

`UnlockAsks` is the two decryptions an `unlock` of some bytes asks for.
Where only the log opens, an accepted file carries the vault's root-key
frame unchanged, and the table of one of the vault's files
(`VaultIdentity.accepted_of_unlock`). What neither of them binds, the
password does not protect.
-/
import MeissnerSeal.Vault.Head
import MeissnerSeal.Crypto.Sealing

namespace MeissnerSeal

open ByteCodec ExceptRules

variable {platform : Platform} {v : VaultIdentity platform}

/-- What the program seals for a vault. -/
inductive VaultIdentity.Seals (v : VaultIdentity platform) : Sealing → Prop where
  | wrk {kek : Key} (hkek : vaultKek platform v.password v.header.vaultId
        v.header.kdfParams = .ok kek) :
      v.Seals ⟨kek, v.wrkFrame.nonce, v.wrkFrame.storedAad.toList, v.wrkFrame.ciphertext⟩
  | table {records : List PendingRecord} {image : Bytes} {sealedLen : UInt32} {nonce : Nonce}
      {ciphertext : Bytes} (himage : Image v records image)
      (hat : SegAt image tableOffset (leU32 sealedLen ++ nonce.toList ++ ciphertext))
      (hlen : 28 + ciphertext.length = tableSectionLen records.length) :
      v.Seals ⟨v.keys.metadataKey, nonce, v.header.vaultId.toList ++ leU16 v.header.schemaProfile,
        ciphertext⟩
  | record {key : Key} {nonce : Nonce} {ciphertext : Bytes} {recordId revisionId : U8Array 16}
      {kind : UInt16} (hkind : AdmissibleKind kind) :
      v.Seals ⟨key, nonce, (itemRecordAad v.header recordId revisionId kind).toList, ciphertext⟩

/-- What an `unlock` of some bytes asks the cipher to decrypt. -/
inductive UnlockAsks (platform : Platform) (password bytes : Bytes) : Sealing → Prop where
  | wrk {head : VaultHead} {kek : Key} (hhead : HeadOf bytes head)
      (hkek : vaultKek platform password head.header.vaultId head.header.kdfParams = .ok kek) :
      UnlockAsks platform password bytes
        ⟨kek, head.wrkFrame.nonce, head.wrkFrame.storedAad.toList, head.wrkFrame.ciphertext⟩
  | table {head : VaultHead} {keys : UnlockedKeys} {sealedLen : UInt32} {nonce : Nonce}
      {ciphertext : Bytes} (hhead : HeadOf bytes head)
      (hkeys : head.deriveKeys platform password = .ok keys)
      (hat : SegAt bytes head.tableOffset (leU32 sealedLen ++ nonce.toList ++ ciphertext))
      (hlen : head.tableLen.toNat = 28 + ciphertext.length) :
      UnlockAsks platform password bytes ⟨keys.metadataKey, nonce,
        head.header.vaultId.toList ++ leU16 head.header.schemaProfile, ciphertext⟩

/-- What holds of a file of the vault's own sealings that `unlock` accepts
as `session`. -/
structure VaultIdentity.Accepts (v : VaultIdentity platform) (bytes : Bytes)
    (session : UnlockedVault) (head : VaultHead) (entries : List RecordTableEntry)
    (records : List PendingRecord) (image : Bytes) : Prop where
  head_of : HeadOf bytes head
  vaultId_eq : head.header.vaultId = v.header.vaultId
  wrkFrame_eq : head.wrkFrame = v.wrkFrame
  derived : head.deriveKeys platform v.password = .ok session.keys
  kek_eq : ∃ kek, vaultKek platform v.password v.header.vaultId head.header.kdfParams = .ok kek
    ∧ vaultKek platform v.password v.header.vaultId v.header.kdfParams = .ok kek
  metadataKey_eq : session.keys.metadataKey = v.keys.metadataKey
  opened : head.openTable platform bytes session.keys.metadataKey = .ok entries
  image_of : Image v records image
  tableLen_eq : head.tableLen.toNat = tableSectionLen records.length
  entries_for : List.Forall₂ (EntryFor image) entries records
  framesFrom : FramesFrom (tableOffset + tableSectionLen records.length) entries image.length

theorem VaultIdentity.Accepts.wrkBytes_eq {bytes image : Bytes} {session : UnlockedVault}
    {head : VaultHead} {entries : List RecordTableEntry} {records : List PendingRecord}
    (h : v.Accepts bytes session head entries records image) : head.wrkBytes = v.wrkBytes := by
  have hser := h.head_of.wrk_serialized
  rw [h.wrkFrame_eq, v.wrk_serialized, Except.ok.injEq] at hser
  exact hser.symm

/-- The root-key frame that opens is the vault's. -/
theorem VaultIdentity.Seals.wrkFrame_eq {bytes : Bytes} {head : VaultHead} {kek : Key}
    (h : v.Seals ⟨kek, head.wrkFrame.nonce, head.wrkFrame.storedAad.toList,
      head.wrkFrame.ciphertext⟩)
    (hhead : HeadOf bytes head) :
    head.header.vaultId = v.header.vaultId ∧ head.wrkFrame = v.wrkFrame
      ∧ vaultKek platform v.password v.header.vaultId v.header.kdfParams = .ok kek := by
  generalize hs : (⟨kek, head.wrkFrame.nonce, head.wrkFrame.storedAad.toList,
    head.wrkFrame.ciphertext⟩ : Sealing) = s at h
  cases h with
  | wrk hkek =>
      obtain ⟨rfl, hnonce, haad, hct⟩ := Sealing.mk.inj hs
      have haadEq := List.Vector.toList_injective haad
      have hbytes := haad
      rw [hhead.wrk_aad, v.wrk_aad] at hbytes
      obtain ⟨hvault, hrecord, hrevision, -⟩ := aadBytes_inj hbytes
      have hctLen := (serializeRecordFrame_eq_ok.mp hhead.wrk_serialized).1
      have hctLen' := (serializeRecordFrame_eq_ok.mp v.wrk_serialized).1
      have hlen : head.wrkFrame.ciphertextLen = v.wrkFrame.ciphertextLen :=
        UInt32.toNat_inj.mp (by rw [hctLen, hctLen', hct])
      refine ⟨hvault, ?_, hkek⟩
      have hversion := hhead.wrk_version.trans v.wrk_version.symm
      generalize head.wrkFrame = frame at *
      generalize v.wrkFrame = frame' at *
      obtain ⟨version, recordId, revisionId, nonce, storedAad, ciphertextLen, ciphertext⟩ := frame
      obtain ⟨version', recordId', revisionId', nonce', storedAad', ciphertextLen', ciphertext'⟩ :=
        frame'
      simp only at hversion hrecord hrevision hnonce haadEq hlen hct
      rw [hversion, hrecord, hrevision, hnonce, haadEq, hlen, hct]
  | table himage hat hlen =>
      obtain ⟨-, -, haad, -⟩ := Sealing.mk.inj hs
      exact absurd haad (toList_aad_ne_tableAad _ _ _)
  | record hkind =>
      obtain ⟨-, -, haad, -⟩ := Sealing.mk.inj hs
      rw [hhead.wrk_aad] at haad
      obtain ⟨-, -, -, hkindEq⟩ := aadBytes_inj haad
      rw [← hkindEq] at hkind
      exact absurd hkind (by decide)

/-- A table that opens is that of a file of the vault. -/
theorem VaultIdentity.Seals.exists_image {key : Key} {nonce : Nonce} {vaultId : U8Array 16}
    {schema : UInt16} {ciphertext : Bytes}
    (h : v.Seals ⟨key, nonce, vaultId.toList ++ leU16 schema, ciphertext⟩) :
    key = v.keys.metadataKey ∧ ∃ (records : List PendingRecord) (image : Bytes)
      (sealedLen : UInt32), Image v records image
      ∧ SegAt image tableOffset (leU32 sealedLen ++ nonce.toList ++ ciphertext)
      ∧ 28 + ciphertext.length = tableSectionLen records.length := by
  generalize hs : (⟨key, nonce, vaultId.toList ++ leU16 schema, ciphertext⟩ : Sealing) = s at h
  cases h with
  | wrk hkek =>
      obtain ⟨-, -, haad, -⟩ := Sealing.mk.inj hs
      exact absurd haad.symm (toList_aad_ne_tableAad _ _ _)
  | table himage hat hlen =>
      obtain ⟨rfl, rfl, -, rfl⟩ := Sealing.mk.inj hs
      exact ⟨rfl, _, _, _, himage, hat, hlen⟩
  | record hkind =>
      obtain ⟨-, -, haad, -⟩ := Sealing.mk.inj hs
      exact absurd haad.symm (toList_aad_ne_tableAad _ _ _)

/-- A file `unlock` accepts with the vault's password is made of the
vault's own sealings. -/
theorem VaultIdentity.accepted_of_unlock {path : Path} {bytes : Bytes} {session : UnlockedVault}
    (hauth : Authentic platform.cipher (UnlockAsks platform v.password bytes) v.Seals)
    (h : unlockBytes platform path v.password bytes = .ok session) :
    ∃ head entries records image, v.Accepts bytes session head entries records image := by
  obtain ⟨-, head, entries, hhead, hkeys, hopen, -, -⟩ := unlockBytes_eq_ok.mp h
  -- the first decryption: the root key
  obtain ⟨kek, rootKey, hkek, hroot, -⟩ := deriveSessionKeys_eq_ok.mp hkeys
  obtain ⟨hvault, hframe, hkek'⟩ :=
    (hauth _ (.wrk hhead hkek) ⟨_, hroot⟩).wrkFrame_eq hhead
  -- the second: the table
  have hmax := length_le_of_parseHeader hhead.header_parsed
  obtain ⟨hschema, sealedLen, nonce, ciphertext, plaintext, hat, -, hlen, hdec, hholds, -⟩ :=
    (openSealedRecordTableV2_eq_ok hmax hmax).mp hopen
  obtain ⟨hmeta, records, image, sealedLen', himage, hat', hlen'⟩ :=
    (hauth _ (.table hhead hkeys hat hlen) ⟨_, hdec⟩).exists_image
  obtain ⟨entries', tableLen, -, htableLen, -, -, -, -, hopen', hentries, -, hmax', -,
    -, hframes⟩ :=
    himage.layout
  obtain ⟨-, sealedLen₂, nonce₂, ciphertext₂, plaintext₂, hat₂, -, hlen₂, hdec₂, hholds₂, -⟩ :=
    (openSealedRecordTableV2_eq_ok hmax' hmax').mp hopen'
  -- one section, so one plaintext, so one list of entries
  have hsection := hat₂.unique hat' (by simp; omega)
  obtain ⟨hleft, rfl⟩ := List.append_inj hsection (by simp)
  obtain ⟨-, hnonce⟩ := List.append_inj hleft (by simp)
  obtain rfl := List.Vector.toList_injective hnonce
  rw [hmeta, hvault, hschema, ← v.profiles.2.1, hdec₂, Except.ok.injEq] at hdec
  subst hdec
  obtain rfl := hholds.unique hholds₂
  refine ⟨head, entries, records, image, hhead, hvault, hframe, hkeys,
    ⟨kek, ?_, hkek'⟩, hmeta, hopen, himage, ?_, hentries, hframes⟩
  · rw [← hvault]
    exact hkek
  · rw [hlen, hlen']

/-- The table of the vault's own head stands where its files have it. -/
theorem VaultIdentity.tableOffset_eq (v : VaultIdentity platform) (tableLen : UInt32) :
    VaultHead.tableOffset ⟨v.header, 147, tableLen, v.wrkFrame, v.wrkBytes⟩ = tableOffset := by
  simp only [VaultHead.tableOffset, VaultHead.wrkOffset, v.length_wrkBytes]
  rfl

/-- Of a file with the vault's own head and the table of one of its files
only the log opens. -/
theorem Image.authentic_of_head {records : List PendingRecord} {image bytes : Bytes}
    {tableLen : UInt32} (h : Image v records image)
    (hown : HeadOf bytes ⟨v.header, 147, tableLen, v.wrkFrame, v.wrkBytes⟩)
    (htableLen : tableLen.toNat = tableSectionLen records.length)
    (hsame : ∀ x, SegAt bytes tableOffset x → x.length = tableLen.toNat →
      SegAt image tableOffset x) :
    Authentic platform.cipher (UnlockAsks platform v.password bytes) v.Seals := by
  intro s hs _
  cases hs with
  | wrk hhead hkek =>
      obtain rfl := hhead.unique hown
      exact .wrk hkek
  | @table head keys sealedLen nonce ciphertext hhead hkeys hat hlen =>
      obtain rfl := hhead.unique hown
      rw [VaultHead.deriveKeys, v.keys_derived, Except.ok.injEq] at hkeys
      subst hkeys
      rw [v.tableOffset_eq] at hat
      simp only at hlen
      refine .table h (hsame _ hat ?_) (hlen.symm.trans htableLen)
      simp only [List.length_append, length_leU32, List.Vector.toList_length]
      omega

/-- Of the vault's own files only the log opens. -/
theorem Image.authentic {records : List PendingRecord} {bytes : Bytes} (h : Image v records bytes) :
    Authentic platform.cipher (UnlockAsks platform v.password bytes) v.Seals := by
  obtain ⟨tableLen, htableLen, hown⟩ := h.headOf
  exact h.authentic_of_head hown htableLen fun _ hat _ => hat

/-- Where the root key does not open, nothing does. -/
theorem authentic_of_closed {password bytes : Bytes} {head : VaultHead} {made : Sealing → Prop}
    (h : HeadOf bytes head)
    (hclosed : ∀ kek plaintext, vaultKek platform password head.header.vaultId head.header.kdfParams
        = .ok kek → decrypt platform.cipher kek head.wrkFrame.nonce head.wrkFrame.ciphertext
          head.wrkFrame.storedAad.toList ≠ .ok plaintext) :
    Authentic platform.cipher (UnlockAsks platform password bytes) made := by
  intro s hs hopens
  cases hs with
  | wrk hhead hkek =>
      obtain rfl := hhead.unique h
      obtain ⟨plaintext, hdec⟩ := hopens
      exact absurd hdec (hclosed _ _ hkek)
  | table hhead hkeys hat hlen =>
      obtain rfl := hhead.unique h
      obtain ⟨kek, rootKey, hkek, hdec, -⟩ := deriveSessionKeys_eq_ok.mp hkeys
      exact absurd hdec (hclosed _ _ hkek)

end MeissnerSeal
