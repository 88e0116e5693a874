/-
The export codec, both ways: what `export` frames, `authenticate` reads
back, and what it reads was framed so.

# The item set

An exported item has the layout of a stored payload under other error
texts (`exportItem_eq_ok`), so a payload's length and existence lemmas
serve here. The decoder of the item set has two limits of its own: the
number of items and the number of tags of one item. Its reader of one item
inverts the writer (`inverts_takeItem`), so its loop inverts the loop of
the writer.

# The container

`parseBundle` accepts the bytes `serializeBundle` makes of the parts it
returns (`parseBundle_of_serialize`), and no others
(`serializeBundle_of_parse`).
-/
import MeissnerSeal.Export.Bundle
import MeissnerSeal.Item.Stored

namespace MeissnerSeal

open ByteCodec ExceptRules TlvList CountedList

-- ============================================================== item set

/-- A length and the bytes it counts, if the length fits. -/
theorem writeLenBytes_eq_ok {bytes x : Bytes} {overflow : String} :
    writeLenBytes bytes overflow = .ok x
      ↔ ∃ len : UInt32, len.toNat = bytes.length ∧ x = leU32 len ++ bytes := by
  simp [writeLenBytes, bind_eq_ok, @eq_comm _ x]

/-- The tags of an export are those of a stored payload. -/
theorem exportTags_eq_ok {tags : List String} {x : Bytes} :
    exportTags tags = .ok x ↔ serializeTags tags = .ok x := by
  induction tags generalizing x with
  | nil => rfl
  | cons tag tags ih =>
      simp only [exportTags, serializeTags, bind_eq_ok, writeLenBytes_eq_ok, ih, u32Len, okOr_eq_ok,
        u32TryFrom_eq_some, pure_eq_ok, Except.ok.injEq]
      constructor
      · rintro ⟨_, ⟨len, hlen, rfl⟩, y, hy, rfl⟩
        exact ⟨len, hlen, y, hy, rfl⟩
      · rintro ⟨len, hlen, y, hy, rfl⟩
        exact ⟨_, ⟨len, hlen, rfl⟩, y, hy, rfl⟩

/-- And they are written one by one. -/
theorem exportTags_eq_writeList (tags : List String) :
    exportTags tags
      = writeList (fun tag => writeLenBytes (utf8 tag) "export tag length overflow") tags := by
  induction tags with
  | nil => rfl
  | cons tag tags ih =>
      rw [exportTags, writeList, ih]

/-- An exported item is laid out as its stored payload. -/
theorem exportItem_eq_ok {item : PlainItem} {x : Bytes} :
    exportItem item.view = .ok x ↔ serializeItemPayload item = .ok x := by
  simp only [exportItem, PlainItem.view, bind_eq_ok, writeLenBytes_eq_ok, okOr_eq_ok,
    u32TryFrom_eq_some, exportTags_eq_ok, serializeItemPayload_eq_ok, pure_eq_ok, Except.ok.injEq]
  constructor
  · rintro ⟨_, ⟨labelLen, hlabel, rfl⟩, tagCount, hcount, tags, htags, _, ⟨secretLen, hsecret, rfl⟩,
      rfl⟩
    exact ⟨labelLen, tagCount, secretLen, tags, hlabel, hcount, htags, hsecret, by
      simp only [List.append_assoc]⟩
  · rintro ⟨labelLen, tagCount, secretLen, tags, hlabel, hcount, htags, hsecret, rfl⟩
    exact ⟨_, ⟨labelLen, hlabel, rfl⟩, tagCount, hcount, tags, htags, _, ⟨secretLen, hsecret, rfl⟩,
      by simp only [List.append_assoc]⟩

theorem readExportU16_eq_ok {bytes : Bytes} {offset : Nat} {v : UInt16} :
    readExportU16 bytes offset = .ok v
      ↔ SegAt bytes offset (leU16 v) ∧ offset + 2 ≤ usizeMax := by
  simp only [readExportU16, bind_eq_ok, okOr_eq_ok, checkedAdd_eq_some, slice?_eq_some_iff,
    readArray_eq_ok, pure_eq_ok, Except.ok.injEq]
  constructor
  · rintro ⟨stop, ⟨rfl, hle⟩, raw, ⟨hseg, -⟩, a, rfl, rfl⟩
    rw [leU16_u16OfLE]
    exact ⟨hseg, hle⟩
  · rintro ⟨hseg, hle⟩
    exact ⟨_, ⟨rfl, hle⟩, _, ⟨hseg, by simp⟩, arrayLE16 v, rfl, u16OfLE_arrayLE16 v⟩

theorem readExportU32_eq_ok {bytes : Bytes} {offset : Nat} {v : UInt32} :
    readExportU32 bytes offset = .ok v
      ↔ SegAt bytes offset (leU32 v) ∧ offset + 4 ≤ usizeMax := by
  simp only [readExportU32, bind_eq_ok, okOr_eq_ok, checkedAdd_eq_some, slice?_eq_some_iff,
    readArray_eq_ok, pure_eq_ok, Except.ok.injEq]
  constructor
  · rintro ⟨stop, ⟨rfl, hle⟩, raw, ⟨hseg, -⟩, a, rfl, rfl⟩
    rw [leU32_u32OfLE]
    exact ⟨hseg, hle⟩
  · rintro ⟨hseg, hle⟩
    exact ⟨_, ⟨rfl, hle⟩, _, ⟨hseg, by simp⟩, arrayLE32 v, rfl, u32OfLE_arrayLE32 v⟩

section Cursor

variable {bytes : Bytes} {cursor stop : Nat} (hmax : bytes.length ≤ usizeMax)
include hmax

/-- A reader at a cursor takes what stands there and moves past it. The
cursor does not overflow in an input that has a `usize` length. -/
theorem takeExportU16_eq_ok {v : UInt16} :
    takeExportU16 bytes cursor = .ok (v, stop) ↔ SegAt bytes cursor (leU16 v)
      ∧ stop = cursor + 2 := by
  simp only [takeExportU16, readExportU16_eq_ok, bind_eq_ok, okOr_eq_ok, checkedAdd_eq_some,
    pure_eq_ok, Except.ok.injEq, Prod.mk.injEq]
  constructor
  · rintro ⟨_, ⟨hseg, -⟩, _, ⟨rfl, -⟩, rfl, rfl⟩
    exact ⟨hseg, rfl⟩
  · rintro ⟨hseg, rfl⟩
    have hle := hseg.le
    rw [length_leU16] at hle
    exact ⟨v, ⟨hseg, by omega⟩, _, ⟨rfl, by omega⟩, rfl, rfl⟩

theorem takeExportU32_eq_ok {n : Nat} :
    takeExportU32 bytes cursor = .ok (n, stop)
      ↔ ∃ v : UInt32, v.toNat = n ∧ SegAt bytes cursor (leU32 v) ∧ stop = cursor + 4 := by
  simp only [takeExportU32, readExportU32_eq_ok, bind_eq_ok, okOr_eq_ok, checkedAdd_eq_some,
    pure_eq_ok, Except.ok.injEq, Prod.mk.injEq]
  constructor
  · rintro ⟨v, ⟨hseg, -⟩, _, ⟨rfl, -⟩, rfl, rfl⟩
    exact ⟨v, rfl, hseg, rfl⟩
  · rintro ⟨v, rfl, hseg, rfl⟩
    have hle := hseg.le
    rw [length_leU32] at hle
    exact ⟨v, ⟨hseg, by omega⟩, _, ⟨rfl, by omega⟩, rfl, rfl⟩

/-- A field is read where it stands behind its length. -/
theorem takeVec_eq_ok {x : Bytes} :
    takeVec bytes cursor = .ok (x, stop)
      ↔ ∃ len : UInt32, len.toNat = x.length ∧ SegAt bytes cursor (leU32 len ++ x)
        ∧ stop = cursor + (4 + x.length) := by
  simp only [takeVec, takeExportU32_eq_ok hmax, bind_eq_ok, Prod.exists, okOr_eq_ok,
    checkedAdd_eq_some, slice?_eq_some_iff, pure_eq_ok, Except.ok.injEq, Prod.mk.injEq,
    segAt_append, length_leU32]
  constructor
  · rintro ⟨_, _, ⟨len, rfl, hlenSeg, rfl⟩, _, ⟨rfl, -⟩, _, ⟨hseg, hlen⟩, rfl, rfl⟩
    exact ⟨len, Nat.add_left_cancel hlen, ⟨hlenSeg, hseg⟩, by omega⟩
  · rintro ⟨len, hlen, ⟨hlenSeg, hseg⟩, rfl⟩
    have hle := hseg.le
    exact ⟨_, _, ⟨len, rfl, hlenSeg, rfl⟩, _, ⟨rfl, by omega⟩, x, ⟨hseg, by omega⟩, rfl, by omega⟩

/-- A string: bytes that are the encoding of a text. -/
theorem takeUtf8_eq_ok {text : String} :
    takeUtf8 bytes cursor = .ok (text, stop)
      ↔ ∃ len : UInt32, len.toNat = (utf8 text).length
        ∧ SegAt bytes cursor (leU32 len ++ utf8 text)
        ∧ stop = cursor + (4 + (utf8 text).length) := by
  simp only [takeUtf8, takeVec_eq_ok hmax, bind_eq_ok, Prod.exists, okOr_eq_ok, pure_eq_ok,
    Except.ok.injEq, Prod.mk.injEq]
  constructor
  · rintro ⟨raw, _, hraw, _, htext, rfl, rfl⟩
    obtain rfl := utf8_of_fromUtf8 htext
    exact hraw
  · intro htext
    exact ⟨utf8 text, stop, htext, text, fromUtf8_utf8 text, rfl, rfl⟩

/-- So the reader of strings inverts their writer, whatever that
says on error. -/
theorem inverts_takeUtf8 (overflow : String) :
    Inverts bytes (fun _ => True) (fun text => writeLenBytes (utf8 text) overflow)
      (takeUtf8 bytes) := by
  intro cursor text stop
  simp only [takeUtf8_eq_ok hmax, writeLenBytes_eq_ok, true_and]
  constructor
  · rintro ⟨len, hlen, hseg, rfl⟩
    exact ⟨_, ⟨len, hlen, rfl⟩, hseg, by rw [List.length_append, length_leU32]⟩
  · rintro ⟨_, ⟨len, hlen, rfl⟩, hseg, rfl⟩
    exact ⟨len, hlen, hseg, by rw [List.length_append, length_leU32]⟩

omit hmax in
/-- The loops of the source are the general one, at their own readers. -/
theorem takeExportTags_eq_readMany (count cursor : Nat) :
    takeExportTags bytes count cursor = readMany (takeUtf8 bytes) count cursor := by
  induction count generalizing cursor with
  | zero => rfl
  | succ count ih => simp only [takeExportTags, readMany, ih]

omit hmax in
theorem takeItems_eq_readMany (count cursor : Nat) :
    takeItems bytes count cursor = readMany (takeItem bytes) count cursor := by
  induction count generalizing cursor with
  | zero => rfl
  | succ count ih => simp only [takeItems, readMany, ih]

/-- The tag loop takes as many tags as it is told where they are written. -/
theorem takeExportTags_eq_ok {count : Nat} {tags : List String} (hcursor : cursor ≤ bytes.length) :
    takeExportTags bytes count cursor = .ok (tags, stop)
      ↔ tags.length = count ∧ ∃ x, exportTags tags = .ok x ∧ SegAt bytes cursor x
        ∧ stop = cursor + x.length := by
  rw [takeExportTags_eq_readMany, exportTags_eq_writeList,
    readMany_eq_ok (inverts_takeUtf8 hmax "export tag length overflow") hcursor]
  simp only [implies_true, true_and]

/-- An item is read where it is written, if it has at most 64 tags. -/
theorem inverts_takeItem :
    Inverts bytes (fun item => item.tags.length ≤ maxTagCount) (fun item => exportItem item.view)
      (takeItem bytes) := by
  intro cursor item stop
  simp only [takeItem, exportItem, PlainItem.view, bind_eq_ok, Prod.exists,
    takeExportU16_eq_ok hmax, takeExportU32_eq_ok hmax, takeUtf8_eq_ok hmax, takeVec_eq_ok hmax,
    ItemKind.fromU16_eq_ok, rejectIf_eq_ok, writeLenBytes_eq_ok, okOr_eq_ok, u32TryFrom_eq_some,
    pure_eq_ok, Except.ok.injEq, Prod.mk.injEq]
  -- each field in the order of the layout, both ways
  constructor
  · rintro ⟨_, _, ⟨hkindSeg, rfl⟩, kind, rfl, label, _, ⟨labelLen, hlabel, hlabelSeg, rfl⟩, _, _,
      ⟨tagCount, rfl, hcountSeg, rfl⟩, -, hle, tags, _, htags, secret, _,
      ⟨secretLen, hsecret, hsecretSeg, rfl⟩, rfl, rfl⟩
    have hcountEnd := hcountSeg.le
    rw [length_leU32] at hcountEnd
    obtain ⟨hcount, x, hx, htagsSeg, rfl⟩ := (takeExportTags_eq_ok hmax hcountEnd).mp htags
    refine ⟨by simp only; omega, _, ⟨_, ⟨labelLen, hlabel, rfl⟩, tagCount, hcount.symm, x, hx, _,
      ⟨secretLen, hsecret, rfl⟩, rfl⟩, ?_, ?_⟩
    · simp only [segAt_append, List.length_append, length_leU16, length_leU32, Nat.add_assoc] at *
      exact ⟨⟨⟨⟨hkindSeg, hlabelSeg⟩, hcountSeg⟩, htagsSeg⟩, hsecretSeg⟩
    · simp only [List.length_append, length_leU16, length_leU32]
      omega
  · rintro ⟨hle, _, ⟨_, ⟨labelLen, hlabel, rfl⟩, tagCount, hcount, x, hx, _,
      ⟨secretLen, hsecret, rfl⟩, rfl⟩, hseg, rfl⟩
    simp only [segAt_append, List.length_append, length_leU16, length_leU32] at hseg ⊢
    obtain ⟨⟨⟨⟨hkindSeg, hlabelSeg⟩, hcountSeg⟩, htagsSeg⟩, hsecretSeg⟩ := hseg
    have hcountEnd := hcountSeg.le
    rw [length_leU32] at hcountEnd
    refine ⟨_, _, ⟨hkindSeg, rfl⟩, item.kind, rfl, item.label, _,
      ⟨labelLen, hlabel, hlabelSeg, (Nat.add_assoc _ _ _).symm⟩, _, _,
      ⟨tagCount, rfl, hcountSeg, rfl⟩, (), by omega, item.tags, _,
      (takeExportTags_eq_ok hmax hcountEnd).mpr ⟨hcount.symm, x, hx, ?_, rfl⟩, item.secret, _,
      ⟨secretLen, hsecret, ?_, rfl⟩, rfl, ?_⟩
    · rwa [Nat.add_assoc cursor]
    · simpa only [Nat.add_assoc] using hsecretSeg
    · omega

end Cursor

/-- The bytes `serialize_live_item_set` makes of items, however
it reads them. -/
def serializeItemSet (items : List PlainItem) : Res Bytes := do
  let count ← okOr (u32TryFrom items.length) (formatError "export item count overflow")
  let written ← writeList (fun item => exportItem item.view) items
  return leU32 count ++ written

/-- A count, and that many items. -/
theorem serializeItemSet_eq_ok {items : List PlainItem} {x : Bytes} :
    serializeItemSet items = .ok x
      ↔ ∃ count : UInt32, count.toNat = items.length
        ∧ ∃ written, writeList (fun item => exportItem item.view) items = .ok written
          ∧ x = leU32 count ++ written := by
  simp only [serializeItemSet, bind_eq_ok, okOr_eq_ok, u32TryFrom_eq_some, pure_eq_ok,
    Except.ok.injEq, @eq_comm _ x]

/-- Bytes are an item set where they are the writing of items that keep the
import-side limits. -/
theorem deserializeItemSet_eq_ok {bytes : Bytes} {items : List PlainItem}
    (hmax : bytes.length ≤ usizeMax) :
    deserializeItemSet bytes = .ok items
      ↔ items.length ≤ maxExportItemCount ∧ (∀ item ∈ items, item.tags.length ≤ maxTagCount)
        ∧ serializeItemSet items = .ok bytes := by
  simp only [deserializeItemSet, bind_eq_ok, Prod.exists, takeExportU32_eq_ok hmax, rejectIf_eq_ok,
    takeItems_eq_readMany, pure_eq_ok, Except.ok.injEq, serializeItemSet_eq_ok]
  constructor
  · rintro ⟨_, _, ⟨count, rfl, hcountSeg, rfl⟩, -, hle, items, stop, hitems, -, hend, rfl⟩
    have hcountEnd := hcountSeg.le
    rw [length_leU32] at hcountEnd
    obtain ⟨hcount, htags, written, hwritten, hseg, rfl⟩ :=
      (readMany_eq_ok (inverts_takeItem hmax) hcountEnd).mp hitems
    refine ⟨by omega, htags, count, hcount.symm, written, hwritten, SegAt.eq_of_length ?_ ?_⟩
    · rw [segAt_append, length_leU32]
      exact ⟨hcountSeg, hseg⟩
    · rw [List.length_append, length_leU32]
      omega
  · rintro ⟨hle, htags, count, hcount, written, hwritten, hbytes⟩
    have hseg := segAt_self bytes
    rw [hbytes, segAt_append, length_leU32, ← hbytes] at hseg
    have hcountEnd := hseg.1.le
    rw [length_leU32] at hcountEnd
    have hlen := congrArg List.length hbytes
    rw [List.length_append, length_leU32] at hlen
    exact ⟨_, _, ⟨count, rfl, hseg.1, rfl⟩, (), by omega, items, _,
      (readMany_eq_ok (inverts_takeItem hmax) hcountEnd).mpr
        ⟨hcount.symm, htags, written, hwritten, hseg.2, rfl⟩, (), by omega, rfl⟩

/-- A set over the import-side count does not read back. -/
theorem deserializeItemSet_of_over {bytes : Bytes} {items : List PlainItem}
    (h : serializeItemSet items = .ok bytes) (hmax : bytes.length ≤ usizeMax)
    (hover : maxExportItemCount < items.length) :
    deserializeItemSet bytes = .error (formatError "export item count exceeds maximum") := by
  obtain ⟨count, hcount, written, -, rfl⟩ := serializeItemSet_eq_ok.mp h
  have hseg := segAt_self (leU32 count ++ written)
  rw [segAt_append] at hseg
  have hread := (takeExportU32_eq_ok hmax).mpr ⟨count, hcount, hseg.1, rfl⟩
  rw [deserializeItemSet, hread, ok_bind]
  exact congrArg (· >>= _) (rejectIf_pos _ hover)

/-- A reader that returns has not overflowed its cursor. -/
theorem takeItems_stop_le {bytes : Bytes} {count cursor stop : Nat} {items : List PlainItem}
    (h : takeItems bytes count cursor = .ok (items, stop)) (hcursor : cursor ≤ usizeMax) :
    stop ≤ usizeMax := by
  induction count generalizing cursor items with
  | zero =>
      rw [takeItems, Except.ok.injEq, Prod.mk.injEq] at h
      rwa [← h.2]
  | succ count ih =>
      simp only [takeItems, takeItem, takeVec, bind_eq_ok, Prod.exists, okOr_eq_ok,
        checkedAdd_eq_some, pure_eq_ok, Except.ok.injEq, Prod.mk.injEq] at h
      obtain ⟨_, _, ⟨_, _, -, _, -, _, _, -, _, _, -, _, -, _, _, -, _, _,
        ⟨_, _, -, _, ⟨rfl, hle⟩, _, -, rfl, rfl⟩, -, rfl⟩, _, _, hrest, -, rfl⟩ := h
      exact ih hrest hle

/-- A set that reads back is addressable. -/
theorem length_of_deserializeItemSet {bytes : Bytes} {items : List PlainItem}
    (h : deserializeItemSet bytes = .ok items) : bytes.length ≤ usizeMax := by
  simp only [deserializeItemSet, takeExportU32, bind_eq_ok, Prod.exists, okOr_eq_ok,
    checkedAdd_eq_some, rejectIf_eq_ok, pure_eq_ok, Except.ok.injEq, Prod.mk.injEq] at h
  obtain ⟨_, _, ⟨_, -, _, ⟨rfl, hle⟩, -, rfl⟩, -, -, _, stop, hitems, -, hend, -⟩ := h
  rw [← Decidable.not_not.mp hend]
  exact takeItems_stop_le hitems hle

/-- The length of an item set is known from its items. -/
theorem length_of_serializeItemSet {items : List PlainItem} {x : Bytes}
    (h : serializeItemSet items = .ok x) :
    x.length = 4 + (items.map PlainItem.payloadLen).sum := by
  obtain ⟨count, -, written, hwritten, rfl⟩ := serializeItemSet_eq_ok.mp h
  rw [List.length_append, length_leU32]
  congr 1
  clear h
  induction items generalizing written with
  | nil =>
      rw [writeList, Except.ok.injEq] at hwritten
      rw [← hwritten]
      rfl
  | cons item items ih =>
      obtain ⟨x, y, hx, hy, rfl⟩ := writeList_cons_eq_ok.mp hwritten
      rw [List.length_append, length_of_serializeItemPayload (exportItem_eq_ok.mp hx), ih y hy,
        List.map_cons, List.sum_cons]

/-- Nothing but a length that does not fit its field keeps items from
being written. -/
theorem exists_serializeItemSet {items : List PlainItem} (hcount : items.length < 2 ^ 32) :
    (∃ x, serializeItemSet items = .ok x) ↔ ∀ item ∈ items, item.Fits := by
  have hitems : (∃ x, writeList (fun item => exportItem item.view) items = .ok x)
      ↔ ∀ item ∈ items, item.Fits := by
    simp only [exists_writeList, exportItem_eq_ok, exists_serializeItemPayload_iff]
  rw [← hitems]
  constructor
  · rintro ⟨_, h⟩
    obtain ⟨-, -, written, hwritten, -⟩ := serializeItemSet_eq_ok.mp h
    exact ⟨written, hwritten⟩
  · rintro ⟨written, hwritten⟩
    exact ⟨_, serializeItemSet_eq_ok.mpr ⟨UInt32.ofNat items.length,
      toNat_u32_ofNat hcount, written, hwritten, rfl⟩⟩

/-- Items within the import-side counts fill a bounded part of memory. -/
theorem length_itemSet_le {items : List PlainItem} {x : Bytes}
    (hcount : items.length ≤ maxExportItemCount)
    (htags : ∀ item ∈ items, item.tags.length ≤ maxTagCount) (h : serializeItemSet items = .ok x) :
    x.length ≤ usizeMax := by
  have hmax : maxExportItemCount = 4096 := rfl
  have hsmall : 4 + 4096 * 2 ^ 40 ≤ usizeMax := by decide
  have hfits := (exists_serializeItemSet (by omega : items.length < 2 ^ 32)).mp ⟨x, h⟩
  have hall : ∀ n ∈ items.map PlainItem.payloadLen, n ≤ 2 ^ 40 := by
    intro n hn
    obtain ⟨item, hitem, rfl⟩ := List.mem_map.mp hn
    exact (hfits item hitem).payloadLen_le (htags item hitem)
  have hsum := List.sum_le_card_nsmul _ _ hall
  rw [List.length_map, nsmul_eq_mul, Nat.cast_id] at hsum
  rw [length_of_serializeItemSet h]
  omega

-- =============================================================== framing

/-- The container is written if the ciphertext fits its length field; the
other parts have fixed lengths or are the KDF block. -/
theorem exists_serializeBundle {sourceVaultId : U8Array 16} {kdfParams nonce ciphertext : Bytes}
    (hnonce : nonce.length = nonceLen) (hkdf : kdfParams.length < 2 ^ 32) :
    (∃ bundle, serializeBundle sourceVaultId kdfParams nonce ciphertext = .ok bundle)
      ↔ ciphertext.length < 2 ^ 32 := by
  have hmin : minBundleLen = 58 := rfl
  have hsmall : 2 ^ 60 ≤ usizeMax := by decide
  simp only [serializeBundle, u32Len, bind_eq_ok, rejectIf_eq_ok, okOr_eq_ok, checkedAdd_eq_some,
    u32TryFrom_eq_some, pure_eq_ok, Except.ok.injEq]
  constructor
  · rintro ⟨bundle, -, -, -, -, len, hlen, -⟩
    rw [← hlen]
    exact len.toNat_lt
  · intro hlt
    exact ⟨_, (), by simp [hnonce], UInt32.ofNat kdfParams.length, toNat_u32_ofNat hkdf,
      UInt32.ofNat ciphertext.length, toNat_u32_ofNat hlt, _, ⟨rfl, by omega⟩, _, ⟨rfl, by omega⟩,
      rfl⟩

/-- A written bundle parses back. -/
theorem parseBundle_of_serialize {sourceVaultId : U8Array 16} {kdfParams ciphertext bundle : Bytes}
    {nonce : Nonce}
    (h : serializeBundle sourceVaultId kdfParams nonce.toList ciphertext = .ok bundle) :
    parseBundle bundle = .ok ⟨msexpVersionV1, sourceVaultId, kdfParams, nonce, ciphertext⟩ := by
  simp only [serializeBundle, u32Len, bind_eq_ok, rejectIf_eq_ok, okOr_eq_ok, checkedAdd_eq_some,
    u32TryFrom_eq_some, pure_eq_ok, Except.ok.injEq] at h
  obtain ⟨-, -, kdfLen, hkdfLen, ciphertextLen, hciphertextLen, _, ⟨rfl, -⟩, _,
    ⟨-, hmax⟩, hbundle⟩ := h
  have hseg := segAt_self bundle
  have hmagic : msexpMagic.length = 8 := rfl
  have hmin : minBundleLen = 58 := rfl
  have hlen := congrArg List.length hbundle
  rw [← hbundle] at hseg
  simp only [segAt_append, List.length_append, length_leU16, length_leU32, hmagic,
    List.Vector.toList_length, Nat.zero_add] at hseg hlen
  rw [hbundle] at hseg
  obtain ⟨⟨⟨⟨⟨⟨⟨hmagicSeg, hversionSeg⟩, hidSeg⟩, hkdfLenSeg⟩, hkdfSeg⟩, hnonceSeg⟩, hctLenSeg⟩,
    hctSeg⟩ := hseg
  -- the lengths of the fixed fields, for the offsets
  have h8 : magicLen = 8 := rfl
  have h2 : versionLen = 2 := rfl
  have h16 : vaultIdLen = 16 := rfl
  have h4 : kdfParamsLenField = 4 := rfl
  have h24 : nonceLen = 24 := rfl
  have h4' : ciphertextLenField = 4 := rfl
  simp only [parseBundle, bind_eq_ok, rejectIf_eq_ok, okOr_eq_ok, slice?_eq_some_iff,
    readExportU16_eq_ok, readExportU32_eq_ok, readArray_eq_ok, checkedAdd_eq_some, pure_eq_ok,
    Except.ok.injEq, Decidable.not_not, h8, h2, h16, h4, h24, h4', Nat.reduceAdd]
  -- the checks of the parser in turn
  refine ⟨(), by omega, msexpMagic, ⟨hmagicSeg, rfl⟩, (), rfl, msexpVersionV1,
    ⟨hversionSeg, by decide⟩, (), rfl, sourceVaultId.toList, ⟨hidSeg, by simp⟩, sourceVaultId, rfl,
    kdfLen, ⟨hkdfLenSeg, by decide⟩, 30, ⟨rfl, by decide⟩, _, ⟨rfl, by omega⟩, kdfParams,
    ⟨hkdfSeg, by omega⟩, _, ⟨rfl, by omega⟩, nonce.toList, ⟨?_, by simp⟩, nonce, rfl, ciphertextLen,
    ⟨?_, by omega⟩, _, ⟨rfl, by omega⟩, _, ⟨rfl, by omega⟩, (), by omega, ciphertext,
    ⟨?_, by omega⟩, rfl⟩
  · rw [hkdfLen]
    exact hnonceSeg
  · rw [hkdfLen]
    exact hctLenSeg
  · rw [hkdfLen]
    exact hctSeg

/-- A bundle that parses was written of its parts. -/
theorem serializeBundle_of_parse {bundle : Bytes} {parsed : ParsedBundle}
    (h : parseBundle bundle = .ok parsed) :
    parsed.version = msexpVersionV1
      ∧ serializeBundle parsed.sourceVaultId parsed.kdfParams parsed.nonce.toList
          parsed.ciphertextAndTag = .ok bundle := by
  have hmagic : msexpMagic.length = 8 := rfl
  have hmin : minBundleLen = 58 := rfl
  have h8 : magicLen = 8 := rfl
  have h2 : versionLen = 2 := rfl
  have h16 : vaultIdLen = 16 := rfl
  have h4 : kdfParamsLenField = 4 := rfl
  have h24 : nonceLen = 24 := rfl
  have h4' : ciphertextLenField = 4 := rfl
  simp only [parseBundle, bind_eq_ok, rejectIf_eq_ok, okOr_eq_ok, slice?_eq_some_iff,
    readExportU16_eq_ok, readExportU32_eq_ok, readArray_eq_ok, checkedAdd_eq_some, pure_eq_ok,
    Except.ok.injEq, Decidable.not_not, h8, h2, h16, h4, h24, h4', Nat.reduceAdd] at h
  obtain ⟨-, -, _, ⟨hmagicSeg, -⟩, -, rfl, _, ⟨hversionSeg, -⟩, -, rfl, _, ⟨hidSeg, -⟩, id, rfl,
    kdfLen, ⟨hkdfLenSeg, -⟩, _, ⟨rfl, -⟩, _, ⟨rfl, -⟩, kdfParams, ⟨hkdfSeg, hkdfLen⟩,
    _, ⟨rfl, -⟩, _, ⟨hnonceSeg, -⟩, nonce, rfl, ctLen, ⟨hctLenSeg, -⟩, _, ⟨rfl, -⟩,
    _, ⟨rfl, hmax⟩, -, hend, ct, ⟨hctSeg, hctLen⟩, rfl⟩ := h
  -- what was sliced off is as long as its length field says
  have hkdf : kdfLen.toNat = kdfParams.length := by omega
  have hct : ctLen.toNat = ct.length := by omega
  refine ⟨rfl, ?_⟩
  simp only [serializeBundle, u32Len, bind_eq_ok, rejectIf_eq_ok, okOr_eq_ok, checkedAdd_eq_some,
    u32TryFrom_eq_some, pure_eq_ok, Except.ok.injEq]
  refine ⟨(), by simp [h24], kdfLen, hkdf, ctLen, hct, _, ⟨rfl, by omega⟩, _, ⟨rfl, by omega⟩, ?_⟩
  -- the parts cover the input, since the parser allows nothing behind them
  refine (SegAt.eq_of_length ?_ ?_).symm
  · rw [hkdf] at hnonceSeg hctLenSeg hctSeg
    simp only [segAt_append, List.length_append, length_leU16, length_leU32, hmagic,
      List.Vector.toList_length, Nat.zero_add]
    exact ⟨⟨⟨⟨⟨⟨⟨hmagicSeg, hversionSeg⟩, hidSeg⟩, hkdfLenSeg⟩, hkdfSeg⟩, hnonceSeg⟩,
      hctLenSeg⟩, hctSeg⟩
  · simp only [List.length_append, length_leU16, length_leU32, hmagic, List.Vector.toList_length]
    omega

-- ============================================================ both codecs

/-- The two codecs of an export, both ways: what is written within the limits
reads back, and what reads back was written so. -/
theorem exportBundle_codec :
    (∀ items : List PlainItem, items.length ≤ maxExportItemCount →
        (∀ item ∈ items, item.tags.length ≤ maxTagCount) →
        ((∃ x, serializeItemSet items = .ok x) ↔ ∀ item ∈ items, item.Fits)
          ∧ ∀ x, serializeItemSet items = .ok x → deserializeItemSet x = .ok items)
      ∧ (∀ (sourceVaultId : U8Array 16) (kdfParams : Bytes) (nonce : Nonce) (ciphertext : Bytes),
          kdfParams.length < 2 ^ 32 → ciphertext.length < 2 ^ 32 →
          ∃ bundle, serializeBundle sourceVaultId kdfParams nonce.toList ciphertext = .ok bundle
            ∧ parseBundle bundle
              = .ok ⟨msexpVersionV1, sourceVaultId, kdfParams, nonce, ciphertext⟩)
      ∧ (∀ (bytes : Bytes) (items : List PlainItem), deserializeItemSet bytes = .ok items →
          serializeItemSet items = .ok bytes)
      ∧ ∀ (bundle : Bytes) (parsed : ParsedBundle), parseBundle bundle = .ok parsed →
          parsed.version = msexpVersionV1
          ∧ serializeBundle parsed.sourceVaultId parsed.kdfParams parsed.nonce.toList
              parsed.ciphertextAndTag = .ok bundle := by
  refine ⟨fun items hcount htags => ?_, fun sourceVaultId kdfParams nonce ciphertext hkdf hct => ?_,
    fun bytes items h => ?_, fun bundle parsed => serializeBundle_of_parse⟩
  · have hmax : maxExportItemCount = 4096 := rfl
    refine ⟨exists_serializeItemSet (by omega), fun x h => ?_⟩
    exact (deserializeItemSet_eq_ok (length_itemSet_le hcount htags h)).mpr ⟨hcount, htags, h⟩
  · have hnonce : nonce.toList.length = nonceLen := nonce.toList_length
    obtain ⟨bundle, hbundle⟩ := (exists_serializeBundle hnonce hkdf).mpr hct
    exact ⟨bundle, hbundle, parseBundle_of_serialize hbundle⟩
  · exact ((deserializeItemSet_eq_ok (length_of_deserializeItemSet h)).mp h).2.2

/-- An item set of one note, and a bundle around it. -/
theorem exportBundle_codec_of_note :
    (∃ x, serializeItemSet [⟨.secureNote, "note", [1, 2, 3], ["tag"]⟩] = .ok x
        ∧ deserializeItemSet x = .ok [⟨.secureNote, "note", [1, 2, 3], ["tag"]⟩])
      ∧ ∀ (sourceVaultId : U8Array 16) (nonce : Nonce),
          ∃ bundle, serializeBundle sourceVaultId [1] nonce.toList [2, 3] = .ok bundle
            ∧ parseBundle bundle = .ok ⟨msexpVersionV1, sourceVaultId, [1], nonce, [2, 3]⟩ := by
  obtain ⟨hset, hbundle, -, -⟩ := exportBundle_codec
  obtain ⟨hexists, hback⟩ := hset [⟨.secureNote, "note", [1, 2, 3], ["tag"]⟩]
    (by decide) (by decide)
  obtain ⟨x, hx⟩ := hexists.mpr (by decide)
  exact ⟨⟨x, hx, hback x hx⟩, fun sourceVaultId nonce =>
    hbundle sourceVaultId [1] nonce [2, 3] (by decide) (by decide)⟩

end MeissnerSeal
