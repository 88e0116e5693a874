/-
Which bytes of an item's frame a read of the item binds.

# Bound and unbound

`read_item` compares the ids of a frame with its entry, and rebuilds the
associated data of the two decryptions from header and entry. It never
looks at the nonce of the frame itself, which seals nothing, nor at the
copy of the associated data the frame carries, which `unlock` does compare
in the root-key frame. What is left of a frame without the two is
`boundBytes`.

# Changed frames

Under an ideal cipher a frame changed on disk reads as an item exactly if
it keeps `boundBytes` (`item_frame_bound_iff`): every other change, another
item's frame and an older one of the same item among them, is an error
before the closure is called.
-/
import MeissnerSeal.Vault.ItemSealings
import MeissnerSeal.Vault.Refinement

namespace MeissnerSeal

open ByteCodec ExceptRules

variable {β : Type} {platform : Platform} {v : VaultIdentity platform} {m : ItemMap}
  {bytes bytes' x y : Bytes} {path : Path} {session : UnlockedVault} {loaded : LoadedVault}
  {entry : RecordTableEntry} {record : PendingRecord} {item : PlainItem}

-- ================================================================ the bytes

/-- A frame without its nonce and its stored associated data. -/
def boundBytes (frame : Bytes) : Bytes :=
  frame.take 37 ++ ((frame.drop 61).take 4 ++ frame.drop 144)

theorem boundBytes_head (h : x ≠ []) : (boundBytes x)[0]? = x[0]? := by
  cases x with
  | nil => exact absurd rfl h
  | cons b x => rfl

/-- The stored associated data is not bound. -/
theorem boundBytes_set {i : Nat} (b : UInt8) (h : 65 ≤ i) (h' : i < 144) :
    boundBytes (x.set i b) = boundBytes x := by
  have hhead : (x.set i b).take 37 = x.take 37 := by
    rw [List.take_set, List.set_eq_of_length_le (by simp only [List.length_take]; omega)]
  have hmid : ((x.set i b).drop 61).take 4 = (x.drop 61).take 4 := by
    rw [List.drop_set, if_neg (by omega), List.take_set,
      List.set_eq_of_length_le (by simp only [List.length_take]; omega)]
  have htail : (x.set i b).drop 144 = x.drop 144 := by
    rw [List.drop_set, if_pos h']
  rw [boundBytes, hhead, hmid, htail, boundBytes]

theorem boundBytes_append {head nonce mid stored rest : Bytes} (hhead : head.length = 37)
    (hnonce : nonce.length = 24) (hmid : mid.length = 4) (hstored : stored.length = 79) :
    boundBytes (head ++ nonce ++ mid ++ stored ++ rest) = head ++ (mid ++ rest) := by
  have h37 : (head ++ nonce ++ mid ++ stored ++ rest).take 37 = head := by
    simp only [List.append_assoc]
    exact List.take_left' hhead
  have h61 : (head ++ nonce ++ mid ++ stored ++ rest).drop 61 = mid ++ (stored ++ rest) := by
    rw [List.append_assoc _ stored, List.append_assoc _ mid]
    exact List.drop_left' (by rw [List.length_append, hhead, hnonce])
  have h144 : (head ++ nonce ++ mid ++ stored ++ rest).drop 144 = rest :=
    List.drop_left' (by simp only [List.length_append, hhead, hnonce, hmid, hstored])
  rw [boundBytes, h37, h61, h144, List.take_left' hmid]

theorem boundBytes_of_serialize {frame : RecordFrame} {aad : U8Array recordAadLen}
    (h : serializeRecordFrame frame aad = .ok x) :
    boundBytes x = (leU16 frame.frameVersion ++ frame.recordId.toList ++ frame.revisionId.toList
        ++ leU16 1 ++ [24]) ++ (leU32 79 ++ (leU32 frame.ciphertextLen ++ frame.ciphertext)) := by
  obtain ⟨-, rfl⟩ := serializeRecordFrame_eq_ok.mp h
  rw [List.append_assoc _ (leU32 frame.ciphertextLen)]
  exact boundBytes_append (by simp) frame.nonce.toList_length (length_leU32 79) aad.toList_length

/-- A frame with the bound bytes of another is that frame but for its nonce
and its stored associated data. -/
theorem exists_frame_of_boundBytes {frame : RecordFrame} {aad : U8Array recordAadLen}
    (h : serializeRecordFrame frame aad = .ok x) (hlen : y.length = x.length)
    (hsame : boundBytes y = boundBytes x) :
    ∃ nonce aad', serializeRecordFrame { frame with nonce := nonce, storedAad := aad' } aad'
      = .ok y := by
  have hxlen := length_of_serializeRecordFrame h
  rw [frameLenFor] at hxlen
  rw [boundBytes_of_serialize h, boundBytes] at hsame
  obtain ⟨hhead, hsame⟩ := List.append_inj hsame (by simp; omega)
  obtain ⟨hmid, htail⟩ := List.append_inj hsame (by simp; omega)
  have hctLen := (serializeRecordFrame_eq_ok.mp h).1
  have hnonce : ((y.drop 37).take 24).length = 24 := by simp; omega
  have haad : ((y.drop 65).take 79).length = recordAadLen := by simp [recordAadLen]; omega
  refine ⟨⟨_, hnonce⟩, ⟨_, haad⟩, serializeRecordFrame_eq_ok.mpr ⟨hctLen, ?_⟩⟩
  -- the frame is cut where its fields are
  have hstep : ∀ n k, y.drop n = (y.drop n).take k ++ y.drop (n + k) := by
    intro n k
    rw [← List.drop_drop, List.take_append_drop]
  calc y = y.take 37 ++ y.drop 37 := (List.take_append_drop 37 y).symm
    _ = y.take 37 ++ ((y.drop 37).take 24 ++ ((y.drop 61).take 4 ++ ((y.drop 65).take 79
          ++ y.drop 144))) := by rw [← hstep 65 79, ← hstep 61 4, ← hstep 37 24]
    _ = _ := by
      rw [hhead, hmid, htail]
      simp only [List.append_assoc]
      rfl

/-- Changing unbound bytes changes nothing of what a record holds. -/
theorem RecordHolds.of_boundBytes (h : RecordHolds v record (some item))
    (hlen : x.length = record.frameBytes.length)
    (hsame : boundBytes x = boundBytes record.frameBytes) :
    RecordHolds v { record with frameBytes := x } (some item) := by
  obtain ⟨hkind, ⟨frame, envelope, rek, payload, hframe, hrest⟩, hframeLen⟩ := h
  obtain ⟨nonce, aad, hframe'⟩ := exists_frame_of_boundBytes hframe hlen hsame
  exact ⟨hkind, ⟨_, envelope, rek, payload, hframe', hrest⟩, hlen.trans hframeLen⟩

/-- What a read finds under an entry, by the frame that stands there. -/
theorem envelopeAt_iff {envelope : ItemRecordFrameEnvelope} (v : VaultIdentity platform)
    (hat : SegAt bytes entry.frameOffset.toNat x) (hlen : entry.frameLen.toNat = x.length) :
    EnvelopeAt bytes v.header entry envelope
      ↔ ∃ (nonce : Nonce) (aad : U8Array recordAadLen) (len : UInt32) (envelopeBytes : Bytes),
        serializeItemRecordFrameEnvelope envelope = .ok envelopeBytes
        ∧ serializeRecordFrame ⟨formatVersion, entry.recordId, entry.revisionId, nonce, aad, len,
            envelopeBytes⟩ aad = .ok x := by
  obtain ⟨tail, htail, htailLen, hhead⟩ := hat.exists_tail
  rw [EnvelopeAt, v.profiles.2.2]
  constructor
  · rintro ⟨tail', frame, htail', hparse, hid, hrevision, henvelope⟩
    obtain ⟨htailAt, htailEnd⟩ := slice?_eq_some_iff.mp htail'
    obtain rfl := htailAt.unique htail (by omega)
    obtain ⟨hversion, -, x', hframe, hx', hlen'⟩ := parseRecordFrame_eq_ok.mp hparse
    obtain rfl := hx'.unique hhead (hlen'.symm.trans hlen)
    have hser := parseItemRecordFrameEnvelope_eq_ok.mp henvelope
    obtain ⟨version, recordId, revisionId, nonce, aad, ctLen, ct⟩ := frame
    simp only at hversion hid hrevision hser hframe
    subst hversion hid hrevision
    exact ⟨nonce, aad, ctLen, ct, hser, hframe⟩
  · rintro ⟨nonce, aad, len, envelopeBytes, hser, hframe⟩
    have htag : 16 ≤ envelopeBytes.length := by
      obtain ⟨-, -, _, _, -, -, rfl⟩ := serializeItemRecordFrameEnvelope_eq_ok.mp hser
      simp only [List.length_append, List.Vector.toList_length, length_leU32]
      omega
    exact ⟨tail, _, slice?_eq_some_iff.mpr ⟨htail, htailLen⟩,
      parseRecordFrame_of_segAt hframe rfl htag hhead hlen, rfl, rfl,
      parseItemRecordFrameEnvelope_eq_ok.mpr hser⟩

-- ================================================================= the file

/-- A frame of a file can be replaced without a load noticing. -/
theorem loadVaultBytes_of_spliced (hload : loadVaultBytes platform session bytes = .ok loaded)
    (hentry : entry ∈ loaded.entries) (hlength : bytes'.length = bytes.length)
    (hsame : ∀ off y, off + y.length ≤ entry.frameOffset.toNat → SegAt bytes off y →
      SegAt bytes' off y) :
    loadVaultBytes platform session bytes' = .ok { loaded with bytes := bytes' } := by
  obtain ⟨headerLen, tableLen, wrkLen, hheader, h10, h14, hwrkLen, hopen, -, hoffset, hlen⟩ :=
    loadVaultBytes_eq_ok.mp hload
  have hmax := length_le_of_parseHeader hheader
  obtain ⟨-, _, _, _, _, hat, -, htableLen, -, -, hadmitted, -⟩ :=
    (openSealedRecordTableV2_eq_ok hmax hmax).mp hopen
  -- every section a load reads ends before the frame
  have hend := (hadmitted entry hentry).sealedTableEnd_le
  have hle := hat.le
  simp only [List.length_append, length_leU32, List.Vector.toList_length] at hle
  have hmin : headerMinLen = 26 := rfl
  have h10' : prefixHeaderLenOffset = 10 := rfl
  have h14' : prefixRecordTableLenOffset = 14 := rfl
  obtain ⟨wrkBytes, hwrkBytes, hwrkAt⟩ : ∃ y, y.length = wrkLen.toNat
      ∧ SegAt bytes (headerMinLen + headerLen.toNat) y := exists_segAt (by omega)
  refine loadVaultBytes_eq_ok.mpr ⟨headerLen, tableLen, wrkLen, ?_, hsame _ _ ?_ h10,
    hsame _ _ ?_ h14, ?_, ?_, rfl, hoffset, hlen⟩
  · exact parseHeader_of_same hheader hmax h10 hlength fun off y hy => hsame off y (by omega)
  · rw [length_leU32]
    omega
  · rw [length_leU32]
    omega
  · exact recordFrameLenAt_of_same hwrkLen hwrkBytes.symm hwrkAt (hsame _ _ (by omega) hwrkAt)
  · exact openSealedRecordTableV2_of_same hopen hmax hlength fun y hy => hsame _ y (by omega)

/-- The entry of a live item. -/
theorem Stored.exists_live_entry {id : ItemId}
    (hstores : List.Forall₂ (EntryStores v loaded.bytes) loaded.entries m.entries)
    (hlive : m.status id = some (some item)) :
    ∃ entry ∈ loaded.entries, EntryStores v loaded.bytes entry (id, some item)
      ∧ (loaded.entries.find? fun entry => entry.recordId = id ∧ entry.recordKind = recordKindItem)
        = some entry := by
  obtain ⟨position, hfound, hget⟩ := TombstoneMap.findIdx?_isLive_of_live hlive
  have hposition : liveItemPosition loaded id = some position := by
    rw [liveItemPosition_eq hstores, hfound]
  obtain ⟨entry, hentry, hholds⟩ := hstores.exists_of_getElem? hget
  refine ⟨entry, List.mem_of_getElem? hentry, hholds, ?_⟩
  rw [List.find?_of_findIdx? hposition, hentry]

/-- Where the cipher is ideal and the draws are fresh, the frame that reads
as an item has the bound bytes of the one that was built. -/
theorem boundBytes_of_readItem {draws : Draws} {calls : Calls β} {decoded : DecodedItem}
    (hrevisions : (sealedRevisions platform calls).Nodup) (hfresh : v.RekFresh calls)
    (hseals : SealsItem platform calls draws record.recordId item)
    (hholds : record.HoldsItem platform draws v.keys.itemWrapKey v.header item)
    (hid : entry.recordId = record.recordId) (hrevision : entry.revisionId = record.revisionId)
    (hheader : loaded.header = v.header) (hat : SegAt loaded.bytes entry.frameOffset.toNat x)
    (hlen : entry.frameLen.toNat = x.length)
    (hauth : Authentic platform.cipher (ItemAsks platform v.keys v.header loaded.bytes entry)
      (v.ItemLog calls))
    (hread : readItem platform (v.session path) loaded entry = .ok decoded) :
    boundBytes x = boundBytes record.frameBytes := by
  obtain ⟨envelope, rek, payload, henvelope, hrek, hpayload, -⟩ := readItem_eq_ok.mp hread
  rw [hheader] at henvelope hrek hpayload
  obtain ⟨len, frameNonce, envelopeBytes, hser, hframe⟩ :=
    v.envelope_of_opens hrevisions hfresh hseals hholds hid hrevision hauth henvelope hrek hpayload
  obtain ⟨nonce, aad, len', envelopeBytes', hser', hframe'⟩ :=
    (envelopeAt_iff v hat hlen).mp henvelope
  obtain rfl : envelopeBytes = envelopeBytes' := Except.ok.inj (hser.symm.trans hser')
  have hlenEq : len = len' := UInt32.toNat_inj.mp
    ((serializeRecordFrame_eq_ok.mp hframe).1.trans (serializeRecordFrame_eq_ok.mp hframe').1.symm)
  rw [boundBytes_of_serialize hframe, boundBytes_of_serialize hframe', hid, hrevision, hlenEq]

/-- Of a frame that keeps its bound bytes only the log opens. -/
theorem authentic_of_boundBytes {draws : Draws} {calls : Calls β}
    (hseals : SealsItem platform calls draws record.recordId item)
    (hholds : record.HoldsItem platform draws v.keys.itemWrapKey v.header item)
    (hid : entry.recordId = record.recordId) (hrevision : entry.revisionId = record.revisionId)
    (hat : SegAt bytes' entry.frameOffset.toNat x) (hlen : entry.frameLen.toNat = x.length)
    (hsame : boundBytes x = boundBytes record.frameBytes) :
    Authentic platform.cipher (ItemAsks platform v.keys v.header bytes' entry)
      (v.ItemLog calls) := by
  obtain ⟨len, frameNonce, rekWrapNonce, payloadNonce, rek, payload, wrapped, ct,
    envelopeBytes, hrek, hpayloadNonce, hrekWrapNonce, -, hser, hct, hwrapped, hbytes,
      hlenEq, hframe, -⟩ :=
    of_buildItemFrame hholds.frameBytes
  have hmem := hseals.mem_sealings
  -- the envelope in the changed frame is the one that was built
  have hbuilt : ∀ envelope, EnvelopeAt bytes' v.header entry envelope →
      envelope = ⟨rekWrapNonce, wrapped, payloadNonce, ct⟩ := by
    intro envelope henvelope
    obtain ⟨nonce, aad, len', envelopeBytes', hser', hframe'⟩ :=
      (envelopeAt_iff v hat hlen).mp henvelope
    rw [boundBytes_of_serialize hframe, boundBytes_of_serialize hframe'] at hsame
    obtain ⟨-, hrest⟩ := List.append_inj hsame (by simp)
    obtain ⟨-, hrest⟩ := List.append_inj hrest rfl
    obtain ⟨-, rfl⟩ := leU32_append_inj hrest
    exact serializeItemRecordFrameEnvelope_inj hser' hbytes
  intro s hs _
  cases hs with
  | wrap henvelope =>
      obtain rfl := hbuilt _ henvelope
      rw [RecordTableEntry.itemAad, hid, hrevision]
      exact @VaultIdentity.ItemLog.wrap _ _ v calls ⟨draws, record.recordId, item⟩
        _ rek rekWrapNonce
        wrapped hmem hholds.revisionId hrek hrekWrapNonce hwrapped
  | payload henvelope hopened =>
      obtain rfl := hbuilt _ henvelope
      rw [RecordTableEntry.itemAad, hid, hrevision] at hopened ⊢
      rw [decrypt_of_encrypt hwrapped, Except.ok.injEq] at hopened
      obtain rfl := List.Vector.toList_injective hopened
      exact @VaultIdentity.ItemLog.payload _ _ v calls ⟨draws, record.recordId, item⟩ _ rek
        payloadNonce payload ct hmem hholds.revisionId hrek hpayloadNonce hser hct

/-- A live entry points to a frame some call sealed. -/
theorem ListsOnly.exists_sealed {calls : Calls β} {records : List PendingRecord}
    (hlists : ListsOnly platform (v.session path) v.header (v.Built calls) bytes)
    (hload : loadVaultBytes platform (v.session path) bytes = .ok loaded)
    (hloaded : LoadedFrom v records bytes loaded) (hmem : entry ∈ loaded.entries)
    (hentry : EntryFor bytes entry record) (hkind : record.recordKind = recordKindItem) :
    ∃ (draws : Draws) (item : PlainItem) (record' : PendingRecord),
      SealsItem platform calls draws record'.recordId item
      ∧ record'.HoldsItem platform draws v.keys.itemWrapKey v.header item
      ∧ EntryFor bytes entry record' ∧ record'.frameBytes = record.frameBytes := by
  obtain ⟨record', hrecord', hentry'⟩ := hloaded.entries_for.exists_of_mem hmem
  have hframe : record'.frameBytes = record.frameBytes :=
    hentry'.frame.unique hentry.frame (hentry'.frameLen.symm.trans hentry.frameLen)
  rcases hlists.listed loaded records hload hloaded.entries_for_loaded record' hrecord' with
    ⟨draws, item, hseals, hitem⟩ | ⟨draws, htombstone⟩
  · exact ⟨draws, item, record', hseals, hitem, hentry', hframe⟩
  · have hkinds : recordKindTombstone ≠ recordKindItem := by decide
    have hsame := hentry'.recordKind.symm.trans hentry.recordKind
    rw [htombstone.recordKind, hkind] at hsame
    exact absurd hsame hkinds

-- ==================================================================== a view

/-- `with_item` fails without calling its closure. -/
def Refused (platform : Platform) (io : IoFaults) (session : UnlockedVault)
    (id : ItemId) (fs : Fs) :
    Prop :=
  ∃ e, ∀ (α : Type) (f : DecodedItem → Res α), withItem platform io session id f fs = (.error e, fs)

/-- A view of a file that loads is refused when its read fails. -/
theorem refused_iff {io : IoFaults} {id : ItemId} {fs : Fs} (hfs : fs session.path = some bytes)
    (hload : loadVaultBytes platform session bytes = .ok loaded) :
    Refused platform io session id fs
      ↔ io.read = true ∨ ∀ decoded, viewItem platform session loaded id ≠ .ok decoded := by
  have hrun : ∀ {α : Type} (f : DecodedItem → Res α), withItem platform io session id f fs
      = if io.read then (.error .io, fs) else match viewItem platform session loaded id with
        | .ok view => (f view, fs)
        | .error e => (.error e, fs) := by
    intro α f
    simp only [withItem, loadVault, FsM.bind_apply, readFile_of_some hfs, FsM.lift]
    cases io.read with
    | true => rfl
    | false =>
        simp only [Bool.false_eq_true, if_false, hload]
        cases viewItem platform session loaded id with
        | error e => rfl
        | ok view => rfl
  simp only [Refused, hrun]
  cases io.read with
  | true => exact iff_of_true ⟨.io, fun _ _ => rfl⟩ (.inl rfl)
  | false =>
      cases viewItem platform session loaded id with
      | error e => exact iff_of_true ⟨e, fun _ _ => rfl⟩ (.inr fun _ h => by cases h)
      | ok view =>
          refine iff_of_false ?_ ?_
          · rintro ⟨e, hall⟩
            cases hall Unit fun _ => .ok ()
          · rintro (hread | hnone)
            · cases hread
            · exact hnone view rfl

/-- An entry whose frame keeps its bound bytes views as the item. -/
theorem LoadedFrom.viewItem_of_boundBytes {records : List PendingRecord} {id : ItemId}
    {decoded : DecodedItem} (hloaded : LoadedFrom v records bytes loaded)
    (hfind : (loaded.entries.find? fun entry =>
      entry.recordId = id ∧ entry.recordKind = recordKindItem) = some entry)
    (hentry : EntryFor bytes entry record) (hholds : RecordHolds v record (some item))
    (hlength : bytes'.length = bytes.length) (hat : SegAt bytes' entry.frameOffset.toNat x)
    (hlen : x.length = record.frameBytes.length)
    (hsame : boundBytes x = boundBytes record.frameBytes) :
    viewItem platform (v.session path) { loaded with bytes := bytes' } id = .ok decoded
      ↔ item.WithinLimits ∧ decoded = item.view := by
  have hholds' : RecordHolds v { record with frameBytes := x } (some item) :=
    hholds.of_boundBytes hlen hsame
  have hentry' : EntryFor bytes' entry { record with frameBytes := x } :=
    ⟨hentry.recordId, hentry.recordKind, hentry.revisionId, hat, hentry.frameLen.trans hlen.symm⟩
  have hmax : bytes'.length ≤ usizeMax := hlength ▸ hloaded.length_le
  simp only [viewItem, hfind, okOr_some, ok_bind]
  exact readItem_of_holds rfl hloaded.header_eq hentry' hholds'

/-- In every history, of every live item: with its frame changed on disk
into any other bytes, under an ideal cipher and fresh draws, `with_item`
fails without calling its closure exactly if the change touches a bound
byte (or the read fails, or the item is over the decoder's limits anyhow). -/
theorem item_frame_bound_iff {password : Bytes} {fs₀ : Fs} {st : VaultState} {calls : Calls β}
    (h : History platform path password fs₀ st calls) (hnodup : (drawnIds calls).Nodup)
    (hrevisions : (sealedRevisions platform calls).Nodup) :
    ∃ (v : VaultIdentity platform) (m : ItemMap) (bytes : Bytes) (loaded : LoadedVault),
      v.password = password ∧ Reached v path st (drawnIds calls) m bytes
      ∧ loadVaultBytes platform (v.session path) bytes = .ok loaded
      ∧ (v.RekFresh calls → ∀ (id : ItemId) (item : PlainItem), m.status id = some (some item) →
        ∃ entry ∈ loaded.entries, ∃ frame, entry.recordId = id
          ∧ SegAt bytes entry.frameOffset.toNat frame ∧ frame.length = entry.frameLen.toNat
          ∧ ∀ (frame' : Bytes) (fs : Fs) (io : IoFaults), frame'.length = frame.length →
            fs path = some (spliced bytes entry.frameOffset.toNat frame') →
            Authentic platform.cipher (ItemAsks platform v.keys v.header
              (spliced bytes entry.frameOffset.toNat frame') entry) (v.ItemLog calls) →
            (Refused platform io (v.session path) id fs
              ↔ io.read = true ∨ boundBytes frame' ≠ boundBytes frame ∨ ¬ item.WithinLimits)) := by
  obtain ⟨v, m, bytes, hv, hreached, bytes', hfile, hlists⟩ := h.lists_built hnodup
  obtain rfl : bytes = bytes' := Option.some.inj (hreached.file.symm.trans hfile)
  obtain ⟨records, loaded, hload, hloaded, -, hstores⟩ :=
    hreached.stored.load (v.session_keys path)
  refine ⟨v, m, bytes, loaded, hv, hreached, hload, fun hfresh id item hlive => ?_⟩
  obtain ⟨entry, hmem, ⟨record, hentry, hfor, hholds⟩, hfind⟩ :=
    Stored.exists_live_entry hstores hlive
  have hbytes := hloaded.bytes_eq
  have hmax := hloaded.length_le
  rw [hbytes] at hentry
  refine ⟨entry, hmem, record.frameBytes, hentry.recordId.trans hfor, hentry.frame,
    hentry.frameLen.symm, fun frame' fs io hlen hfs hauth => ?_⟩
  -- the file with the other frame loads as before
  obtain ⟨hlength, hat, hapart⟩ := hentry.frame.spliced hlen
  generalize spliced bytes entry.frameOffset.toNat frame' = changed at *
  have hload' := loadVaultBytes_of_spliced hload hmem hlength fun off y hle =>
    hapart off y (.inl hle)
  have hfile' : fs (v.session path).path = some changed := hfs
  rw [refused_iff hfile' hload']
  refine or_congr_right ?_
  by_cases hsame : boundBytes frame' = boundBytes record.frameBytes
  · have hread : ∀ decoded, viewItem platform (v.session path) { loaded with bytes := changed } id
        = .ok decoded ↔ item.WithinLimits ∧ decoded = item.view := fun decoded =>
      hloaded.viewItem_of_boundBytes hfind hentry hholds hlength hat hlen hsame
    simp only [Ne, hread, hsame, not_true_eq_false, false_or, not_and]
    exact ⟨fun hnone hlimits => hnone _ hlimits rfl, fun hlimits _ hwithin =>
      absurd hwithin hlimits⟩
  · -- what reads has the bound bytes of the record's own frame
    refine iff_of_true (fun decoded hview => hsame ?_) (.inl hsame)
    have hread : readItem platform (v.session path) { loaded with bytes := changed } entry
        = .ok decoded := by
      simp only [viewItem, hfind, okOr_some, ok_bind] at hview
      exact hview
    obtain ⟨draws, item', record', hseals, hitem, hentry', hframe⟩ :=
      hlists.exists_sealed hload hloaded hmem hentry hholds.1
    have hheader : ({ loaded with bytes := changed } : LoadedVault).header = v.header :=
      hloaded.header_eq
    rw [← hframe]
    exact boundBytes_of_readItem hrevisions hfresh hseals hitem hentry'.recordId hentry'.revisionId
      hheader hat (hentry.frameLen.trans hlen.symm) hauth hread

-- ================================================================== a sample

/-- An environment in which nothing fails, with a chosen record key. -/
def envWithRek (rek : Key) : Env where
  draws := { drawsWith zeroId zeroId with rek := some rek }

/-- The one call of the sample. -/
def addWithRek (rek : Key) : Calls Unit :=
  [(.mutate (envWithRek rek) (.add sampleItem), .mutated (.ok (some zeroId)))]

theorem sealings_addWithRek (rek : Key) :
    sealings Platform.transparent (addWithRek rek)
      = [⟨(envWithRek rek).draws, zeroId, sampleItem⟩] := rfl

theorem sealedRevisions_addWithRek (rek : Key) :
    (sealedRevisions Platform.transparent (addWithRek rek)).Nodup := List.nodup_singleton _

/-- A history goes on with an add that commits. -/
theorem History.added {password : Bytes} {fs₀ : Fs} {st : VaultState} {calls : Calls β} {env : Env}
    {id : ItemId} (h : History platform path password fs₀ st calls)
    (hsession : v.session path ∈ st.sessions) (hfs : st.fs path = some bytes)
    (hstored : Stored v m bytes) (hid : env.draws.recordId = some id) (hnew : id ∉ m.keys)
    (hcommits : (Mutation.add item).Commits env path st.fs m) (hio : env.io.afterRename = false) :
    ∃ out, History platform path password fs₀ ⟨st.fs.set path (some out), st.sessions⟩
        (calls ++ [(.mutate env (.add item), .mutated (.ok (some id)))])
      ∧ Stored v (m.push id item hnew) out := by
  have hfile : st.fs (v.session path).path = some bytes := hfs
  have hat : (Mutation.add item).Commits env (v.session path).path st.fs m := hcommits
  obtain ⟨out, hadd, hstored'⟩ := hstored.add_of_commits hfile rfl hid hnew hat
  have hrun : StoreCall.run platform (v.session path) (.mutate env (.add item) : StoreCall β) st.fs
      = (.mutated (.ok (some id)), st.fs.set path (some out)) := by
    simp only [StoreCall.run, Mutation.run, FsM.bind_apply, hadd, hio, Bool.false_eq_true, if_false,
      FsM.pure_apply]
    rfl
  have hcalled := h.called hsession (.mutate env (.add item))
  rw [hrun] at hcalled
  exact ⟨out, hcalled, hstored'⟩

/-- Where nothing fails, an add with a chosen id and record key commits. -/
theorem add_commits_of_rek {fs : Fs} (rek : Key) (id : ItemId)
    (hlen : storedFrameLen (some item) < 2 ^ 32) (hsize : m.size < maxRecords)
    (hoff : AgreesOff samplePath noFiles fs) :
    (Mutation.add item).Commits { draws := { drawsWith id zeroId with rek := some rek } } samplePath
      fs m :=
  ⟨⟨⟨⟨⟨rfl, rfl, rfl, rfl⟩, rfl, rfl, rfl⟩, rfl⟩, hlen, hsize⟩, rfl, zeroId, rfl, rfl,
    samplePath_tmp _, hoff _ (samplePath_tmp_ne zeroId), rfl, rfl, rfl⟩

/-- There is a key beside the wrapping key. -/
theorem exists_rek_ne (key : Key) : ∃ rek : Key, rek ≠ key := by
  by_cases hzero : key = List.Vector.replicate 32 0
  · refine ⟨List.Vector.replicate 32 1, ?_⟩
    rw [hzero]
    decide
  · exact ⟨_, Ne.symm hzero⟩

/-- A vault with one item, sealed under a key that is not the wrapping key. -/
theorem sample_added_fresh :
    ∃ (st : VaultState) (rek : Key) (v : VaultIdentity Platform.transparent) (m : ItemMap)
      (bytes : Bytes),
      History Platform.transparent samplePath samplePassword noFiles st (addWithRek rek)
      ∧ v.password = samplePassword ∧ v.RekFresh (addWithRek rek) ∧ st.fs samplePath = some bytes
      ∧ Stored v m bytes ∧ m.status zeroId = some (some sampleItem) := by
  obtain ⟨st, v, bytes, hhistory, hsession, hoff, hv, hfs, hstored⟩ := @sample_reached Unit
  obtain ⟨rek, hrek⟩ := exists_rek_ne v.keys.itemWrapKey
  have hnew : zeroId ∉ (TombstoneMap.empty : ItemMap).keys := List.not_mem_nil
  have hcommits : (Mutation.add sampleItem).Commits (envWithRek rek) samplePath st.fs
      TombstoneMap.empty :=
    add_commits_of_rek rek zeroId (storedFrameLen_lt sampleItem_withinLimits) (by decide) hoff
  obtain ⟨out, hadded, hstored'⟩ := hhistory.added hsession hfs hstored rfl hnew hcommits rfl
  have hout : st.fs.set samplePath (some out) samplePath = some out := Fs.set_self ..
  refine ⟨_, rek, v, _, out, hadded, hv, ?_, hout, hstored', ?_⟩
  · intro s hs
    rw [sealings_addWithRek, List.mem_singleton] at hs
    rw [hs]
    exact fun hsame => hrek (Option.some.inj hsame)
  · rw [TombstoneMap.status_push, if_pos rfl]

theorem EntryStores.le_frameLen {stored : ItemId × Option PlainItem}
    (h : EntryStores v bytes entry stored) : 148 ≤ entry.frameLen.toNat := by
  obtain ⟨record, hentry, -, hholds⟩ := h
  rw [hentry.frameLen, hholds.length_eq]
  cases stored.2 with
  | none => exact Nat.le_refl _
  | some item =>
      rw [storedFrameLen]
      omega

/-- A frame with another version holds no envelope. -/
theorem not_envelopeAt_of_version {envelope : ItemRecordFrameEnvelope} (v : VaultIdentity platform)
    (hat : SegAt bytes entry.frameOffset.toNat x)
    (hlen : entry.frameLen.toNat = x.length) (hversion : x[0]? ≠ some 1) :
    ¬ EnvelopeAt bytes v.header entry envelope := by
  intro henvelope
  obtain ⟨nonce, aad, len, envelopeBytes, -, hframe⟩ := (envelopeAt_iff v hat hlen).mp henvelope
  obtain ⟨-, rfl⟩ := serializeRecordFrame_eq_ok.mp hframe
  exact hversion rfl

/-- The stored associated data of a frame may be changed: the item
reads as before. -/
theorem storedAad_unbound :
    ∃ (st : VaultState) (rek : Key) (v : VaultIdentity Platform.transparent) (bytes : Bytes)
      (entry : RecordTableEntry) (frame frame' : Bytes),
      History Platform.transparent samplePath samplePassword noFiles st (addWithRek rek)
      ∧ v.RekFresh (addWithRek rek) ∧ st.fs samplePath = some bytes ∧ entry.recordId = zeroId
      ∧ SegAt bytes entry.frameOffset.toNat frame ∧ frame.length = entry.frameLen.toNat
      ∧ frame'.length = frame.length ∧ frame' ≠ frame
      ∧ Authentic Platform.transparent.cipher (ItemAsks Platform.transparent v.keys v.header
          (spliced bytes entry.frameOffset.toNat frame') entry) (v.ItemLog (addWithRek rek))
      ∧ ∀ f : DecodedItem → Res Unit, (withItem Platform.transparent IoFaults.none
          (v.session samplePath) zeroId f
          (st.fs.set samplePath (some (spliced bytes entry.frameOffset.toNat frame')))).1
        = f sampleItem.view := by
  obtain ⟨st, rek, w, m, bytes, hhistory, hw, hfresh, hfs, hstored, hlive⟩ := sample_added_fresh
  obtain ⟨v, m', bytes', hv, hreached, bytes'', hfile, hlists⟩ :=
    hhistory.lists_built (List.nodup_singleton zeroId)
  obtain rfl : bytes = bytes' := Option.some.inj (hfs.symm.trans hreached.file)
  obtain rfl : bytes = bytes'' := Option.some.inj (hfs.symm.trans hfile)
  obtain rfl := hreached.stored.identity_eq hstored (hv.trans hw.symm)
  rw [← hreached.stored.unique hstored rfl] at hlive
  obtain ⟨records, loaded, hload, hloaded, -, hstores⟩ :=
    hreached.stored.load (v.session_keys samplePath)
  obtain ⟨entry, hmem, ⟨record, hentry, hfor, hholds⟩, hfind⟩ :=
    Stored.exists_live_entry hstores hlive
  rw [hloaded.bytes_eq] at hentry
  have hlong : record.frameBytes.length = storedFrameLen (some sampleItem) := hholds.length_eq
  have h65 : 65 < record.frameBytes.length := by
    rw [hlong]
    decide
  -- a byte of the stored associated data, changed
  generalize hchanged : record.frameBytes.set 65 (record.frameBytes[65] + 1) = frame'
  have hlen : frame'.length = record.frameBytes.length := by rw [← hchanged, List.length_set]
  have hne : frame' ≠ record.frameBytes := by
    intro hsame
    have hbyte := congrArg (fun x => x[65]?) (hchanged.trans hsame)
    simp only [List.getElem?_set_self h65, List.getElem?_eq_getElem h65, Option.some.injEq] at hbyte
    have hsucc := congrArg UInt8.toNat hbyte
    have hlt := (record.frameBytes[65]).toNat_lt
    rw [UInt8.toNat_add, UInt8.toNat_one] at hsucc
    omega
  have hsame : boundBytes frame' = boundBytes record.frameBytes := by
    rw [← hchanged]
    exact boundBytes_set _ (by decide) (by decide)
  obtain ⟨hlength, hat, hapart⟩ := hentry.frame.spliced hlen
  refine ⟨st, rek, v, bytes, entry, record.frameBytes, frame', hhistory, hfresh, hfs,
    hentry.recordId.trans hfor, hentry.frame, hentry.frameLen.symm, hlen, hne, ?_, fun f => ?_⟩
  · obtain ⟨draws, item, record', hseals, hitem, hentry', hframe⟩ :=
      hlists.exists_sealed hload hloaded hmem hentry hholds.1
    exact authentic_of_boundBytes hseals hitem hentry'.recordId hentry'.revisionId hat
      (hentry.frameLen.trans hlen.symm) (hsame.trans (congrArg boundBytes hframe.symm))
  · have hload' := loadVaultBytes_of_spliced hload hmem hlength fun off y hle =>
      hapart off y (.inl hle)
    have hview : viewItem Platform.transparent (v.session samplePath)
        { loaded with bytes := spliced bytes entry.frameOffset.toNat frame' } zeroId
        = .ok sampleItem.view :=
      (hloaded.viewItem_of_boundBytes hfind hentry hholds hlength hat hlen hsame).mpr
        ⟨sampleItem_withinLimits, rfl⟩
    have hpath : (v.session samplePath).path = samplePath := rfl
    have hread : IoFaults.none.read = false := rfl
    simp only [withItem, loadVault, FsM.bind_apply, hpath, readFile, Fs.set_self, hread, FsM.lift,
      okOr_some, Bool.false_eq_true, if_false, hload', hview]

/-- A frame whose version is changed is refused. -/
theorem item_frame_bound_iff_of_version :
    ∃ (st : VaultState) (rek : Key) (v : VaultIdentity Platform.transparent) (bytes frame' : Bytes)
      (entry : RecordTableEntry),
      History Platform.transparent samplePath samplePassword noFiles st (addWithRek rek)
      ∧ st.fs samplePath = some bytes
      ∧ Refused Platform.transparent IoFaults.none (v.session samplePath) zeroId
        (st.fs.set samplePath (some (spliced bytes entry.frameOffset.toNat frame'))) := by
  obtain ⟨st, rek, w, m, bytes, hhistory, hw, hfresh, hfs, hstored, hlive⟩ := sample_added_fresh
  obtain ⟨v, m', bytes', loaded, hv, hreached, hload, hall⟩ :=
    item_frame_bound_iff hhistory (List.nodup_singleton zeroId) (sealedRevisions_addWithRek rek)
  obtain rfl : bytes = bytes' := Option.some.inj (hfs.symm.trans hreached.file)
  obtain rfl := hreached.stored.identity_eq hstored (hv.trans hw.symm)
  rw [← hreached.stored.unique hstored rfl] at hlive
  obtain ⟨entry, hentry, frame, -, hat, hlen, hiff⟩ := hall hfresh zeroId sampleItem hlive
  obtain ⟨records, loaded', hload', hloaded, -, hstores⟩ :=
    hreached.stored.load (v.session_keys samplePath)
  obtain rfl := Except.ok.inj (hload.symm.trans hload')
  obtain ⟨stored, -, hstore⟩ := hstores.exists_of_mem hentry
  have hlong : 0 < frame.length := by
    have hle := EntryStores.le_frameLen hstore
    omega
  -- a first byte that is neither the version nor what stands there
  obtain ⟨b, hb, hne⟩ : ∃ b : UInt8, b ≠ 1 ∧ b ≠ frame[0] := by
    by_cases hthree : frame[0] = 3
    · exact ⟨2, by decide, by rw [hthree]; decide⟩
    · exact ⟨3, by decide, Ne.symm hthree⟩
  have hhead : (frame.set 0 b)[0]? = some b := by rw [List.getElem?_set_self hlong]
  have hsetLen : (frame.set 0 b).length = frame.length := List.length_set
  obtain ⟨hlength, hat', -⟩ := hat.spliced hsetLen
  refine ⟨st, rek, v, bytes, frame.set 0 b, entry, hhistory, hfs, (hiff _ _ IoFaults.none hsetLen
    (Fs.set_self ..) ?_).mpr (.inr (.inl ?_))⟩
  · intro s hs _
    have hnot : ∀ envelope, ¬ EnvelopeAt (spliced bytes entry.frameOffset.toNat (frame.set 0 b))
        v.header entry envelope := by
      intro envelope
      refine not_envelopeAt_of_version v hat' (by omega) ?_
      rw [hhead]
      exact fun hsame => hb (Option.some.inj hsame)
    cases hs with
    | wrap henvelope => exact absurd henvelope (hnot _)
    | payload henvelope _ => exact absurd henvelope (hnot _)
  · intro hsame
    have hfirst := congrArg (fun x => x[0]?) hsame
    have hnil : frame ≠ [] := List.ne_nil_of_length_pos hlong
    have hnil' : frame.set 0 b ≠ [] := List.ne_nil_of_length_pos (by omega)
    simp only [boundBytes_head hnil, boundBytes_head hnil', hhead, List.getElem?_eq_getElem hlong,
      Option.some.injEq] at hfirst
    exact hne hfirst

end MeissnerSeal
