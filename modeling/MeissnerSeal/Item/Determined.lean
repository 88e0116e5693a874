/-
A file determines the map it stores.

# Injective encodings

The payload encoder is injective on every item it accepts, those the
decoder will not read included. Under one vault's keys the frame of a
record opens to one payload, so `Stored` relates a file to at most one
map (`Stored.unique`): what the results below say of the map stored is
said of the file.
-/
import MeissnerSeal.Item.Operations

namespace MeissnerSeal

open ByteCodec ExceptRules

variable {platform : Platform} {v w : VaultIdentity platform} {m m' : ItemMap} {bytes : Bytes}

-- ================================================================ frames

/-- One frame holds one item. -/
theorem RecordHolds.unique {record : PendingRecord} {item item' : PlainItem}
    (hkeys : v.keys = w.keys) (hheader : v.header = w.header)
    (hlt : record.frameBytes.length < 2 ^ 32) (h : RecordHolds v record (some item))
    (h' : RecordHolds w record (some item')) : item = item' := by
  obtain ⟨-, ⟨frame, envelope, rek, payload, hframe, hversion, -, -, henvelope, hrek, hpayload,
    hser⟩, hlen⟩ := h
  obtain ⟨-, ⟨frame', envelope', rek', payload', hframe', hversion', -, -, henvelope', hrek',
    hpayload', hser'⟩, -⟩ := h'
  have hframeLen := length_of_serializeRecordFrame hframe
  have hframeLen' := length_of_serializeRecordFrame hframe'
  rw [frameLenFor] at hframeLen hframeLen'
  rw [storedFrameLen] at hlen
  have hu32 : (UInt32.ofNat record.frameBytes.length).toNat = record.frameBytes.length :=
    toNat_u32_ofNat hlt
  have hparse := parseRecordFrame_of_segAt hframe hversion (by omega) (segAt_self _) hu32
  have hparse' := parseRecordFrame_of_segAt hframe' hversion' (by omega) (segAt_self _) hu32
  rw [hparse, Except.ok.injEq] at hparse'
  subst hparse'
  obtain rfl := serializeItemRecordFrameEnvelope_inj henvelope henvelope'
  rw [← hkeys, ← hheader, hrek, Except.ok.injEq] at hrek'
  obtain rfl : rek = rek' := List.Vector.toList_injective hrek'
  rw [← hheader, hpayload, Except.ok.injEq] at hpayload'
  subst hpayload'
  exact serializeItemPayload_inj hser hser'

/-- An entry of one table stands for one entry of a map. -/
theorem EntryStores.unique {entry : RecordTableEntry} {stored stored' : ItemId × Option PlainItem}
    (hkeys : v.keys = w.keys) (hheader : v.header = w.header)
    (h : EntryStores v bytes entry stored) (h' : EntryStores w bytes entry stored') :
    stored = stored' := by
  have hid := h.recordId_eq
  rw [h'.recordId_eq] at hid
  have hkind := h.recordKind_eq
  rw [h'.recordKind_eq] at hkind
  obtain ⟨record, hentry, hfor, hholds⟩ := h
  obtain ⟨record', hentry', hfor', hholds'⟩ := h'
  have hframe : record.frameBytes = record'.frameBytes :=
    hentry.frame.unique hentry'.frame (by rw [← hentry.frameLen, hentry'.frameLen])
  have hsame : record = record' := by
    obtain ⟨recordId, recordKind, revisionId, frameBytes⟩ := record
    obtain ⟨recordId', recordKind', revisionId', frameBytes'⟩ := record'
    obtain ⟨h1, h2, h3, -, -⟩ := hentry
    obtain ⟨h1', h2', h3', -, -⟩ := hentry'
    simp only at h1 h2 h3 h1' h2' h3' hframe
    rw [← h1, ← h2, ← h3, h1', h2', h3', hframe]
  subst hsame
  have hlt : record.frameBytes.length < 2 ^ 32 := by
    rw [← hentry.frameLen]
    exact entry.frameLen.toNat_lt
  have hkinds : recordKindTombstone ≠ recordKindItem := by decide
  obtain ⟨id, content⟩ := stored
  obtain ⟨id', content'⟩ := stored'
  simp only at hid hkind hholds hholds'
  cases content with
  | none =>
      cases content' with
      | none => rw [hid]
      | some item' => exact absurd hkind.symm hkinds
  | some item =>
      cases content' with
      | none => exact absurd hkind hkinds
      | some item' => rw [hid, hholds.unique hkeys hheader hlt hholds']

/-- One password opens one file to one vault. -/
theorem Image.identity_eq {records records' : List PendingRecord} (h : Image v records bytes)
    (h' : Image w records' bytes) (hpassword : v.password = w.password) : v = w := by
  obtain ⟨_, _, hparse, -, -, -, -, hwrk, -⟩ := h.parts
  obtain ⟨_, _, hparse', -, -, -, -, hwrk', -⟩ := h'.parts
  have hheader : v.header = w.header := Except.ok.inj (hparse.symm.trans hparse')
  have hbytes : v.wrkBytes = w.wrkBytes :=
    hwrk.unique hwrk' (v.length_wrkBytes.trans w.length_wrkBytes.symm)
  have hlen : (196 : UInt32).toNat = v.wrkBytes.length := v.length_wrkBytes.symm
  have hmax : v.wrkBytes.length ≤ usizeMax := by
    rw [v.length_wrkBytes]
    decide
  have hframe := parseRecordFrame_of_segAt v.wrk_serialized v.wrk_version
    (by rw [v.wrk_ciphertext]; decide) (segAt_self _) hlen
  have hframe' := parseRecordFrame_of_segAt w.wrk_serialized w.wrk_version
    (by rw [w.wrk_ciphertext]; decide) (segAt_self _) (hbytes ▸ hlen)
  rw [hbytes] at hframe
  have hsame : v.wrkFrame = w.wrkFrame := Except.ok.inj (hframe.symm.trans hframe')
  have hderived := v.keys_derived
  rw [hpassword, hheader, hsame] at hderived
  have hkeys : v.keys = w.keys := Except.ok.inj (hderived.symm.trans w.keys_derived)
  have hserialized := v.header_serialized
  rw [hheader] at hserialized
  have hheaderBytes : v.headerBytes = w.headerBytes :=
    Except.ok.inj (hserialized.symm.trans w.header_serialized)
  cases v
  cases w
  congr

theorem Stored.identity_eq (h : Stored v m bytes) (h' : Stored w m' bytes)
    (hpassword : v.password = w.password) : v = w := by
  obtain ⟨records, himage, -⟩ := h
  obtain ⟨records', himage', -⟩ := h'
  exact himage.identity_eq himage' hpassword

/-- A file stores one map. -/
theorem Stored.unique (h : Stored v m bytes) (h' : Stored w m' bytes) (hkeys : v.keys = w.keys) :
    m = m' := by
  have hheader : v.header = w.header := by
    obtain ⟨records, himage, -⟩ := h
    obtain ⟨records', himage', -⟩ := h'
    obtain ⟨_, _, hparse, -⟩ := himage.parts
    obtain ⟨_, _, hparse', -⟩ := himage'.parts
    rw [hparse, Except.ok.injEq] at hparse'
    exact hparse'
  obtain ⟨_, loaded, hload, -, -, hentries⟩ := h.load (v.session_keys ⟨"", ""⟩)
  obtain ⟨_, loaded', hload', -, -, hentries'⟩ :=
    h'.load ((v.session_keys ⟨"", ""⟩).trans hkeys)
  rw [hload, Except.ok.injEq] at hload'
  subst hload'
  have hall : ∀ {entries : List RecordTableEntry}
      {stored stored' : List (ItemId × Option PlainItem)},
      List.Forall₂ (EntryStores v loaded.bytes) entries stored →
      List.Forall₂ (EntryStores w loaded.bytes) entries stored' → stored = stored' := by
    intro entries stored stored' hforall hforall'
    induction hforall generalizing stored' with
    | nil =>
        cases hforall'
        rfl
    | cons hstores _ ih =>
        cases hforall' with
        | cons hstores' hrest => rw [hstores.unique hkeys hheader hstores', ih hrest]
  obtain ⟨entries, hnodup⟩ := m
  obtain ⟨entries', hnodup'⟩ := m'
  obtain rfl := hall hentries hentries'
  rfl

end MeissnerSeal
