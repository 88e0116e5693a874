/-
The item model and the plaintext payload codec: what `add` and `update`
seal under a record key, and the bounded decoder every read goes through.
The writer is injective, and what decodes is what it wrote
(`deserializeItemPayload_eq_ok`).
-/
import MeissnerSeal.Keys.Hierarchy
import MeissnerSeal.Lib.CountedList
import Mathlib.Algebra.GroupWithZero.Nat

namespace MeissnerSeal

open ByteCodec ExceptRules TlvList CountedList

-- ================================================================ types

/-- `ItemId`. -/
abbrev ItemId := U8Array 16

inductive ItemKind where
  | password
  | seedPhrase
  | sshPrivateKey
  | apiToken
  | secureNote
  deriving DecidableEq, Repr

def ItemKind.asU16 : ItemKind → UInt16
  | .password => 0x0001
  | .seedPhrase => 0x0002
  | .sshPrivateKey => 0x0003
  | .apiToken => 0x0004
  | .secureNote => 0x0005

def ItemKind.fromU16 (v : UInt16) : Res ItemKind :=
  if v = 0x0001 then .ok .password
  else if v = 0x0002 then .ok .seedPhrase
  else if v = 0x0003 then .ok .sshPrivateKey
  else if v = 0x0004 then .ok .apiToken
  else if v = 0x0005 then .ok .secureNote
  else .error (formatError "unknown item kind")

structure PlainItem where
  kind : ItemKind
  label : String
  secret : Bytes
  tags : List String
  deriving DecidableEq

/-- `DecodedItem`, and `PlainItemView`, which borrows its four fields. -/
structure DecodedItem where
  kind : ItemKind
  label : String
  tags : List String
  secret : Bytes
  deriving DecidableEq

structure ItemSummary where
  id : ItemId
  kind : ItemKind
  label : String
  tags : List String
  deriving DecidableEq

/-- The view a read of this item hands out. -/
def PlainItem.view (item : PlainItem) : DecodedItem :=
  { kind := item.kind, label := item.label, tags := item.tags, secret := item.secret }

/-- The item a view describes. -/
def DecodedItem.item (decoded : DecodedItem) : PlainItem :=
  { kind := decoded.kind, label := decoded.label, secret := decoded.secret, tags := decoded.tags }

def DecodedItem.summary (id : ItemId) (decoded : DecodedItem) : ItemSummary :=
  { id, kind := decoded.kind, label := decoded.label, tags := decoded.tags }

theorem ItemKind.fromU16_asU16 (kind : ItemKind) : fromU16 kind.asU16 = .ok kind := by
  cases kind <;> rfl

theorem ItemKind.fromU16_eq_ok {v : UInt16} {kind : ItemKind} :
    fromU16 v = .ok kind ↔ v = kind.asU16 := by
  constructor
  · intro h
    unfold fromU16 at h
    split_ifs at h with h₁ h₂ h₃ h₄ h₅ <;> cases h <;> assumption
  · rintro rfl
    exact fromU16_asU16 kind

-- ================================================================ codec

def maxLabelLen : Nat := 1024
def maxTagCount : Nat := 64
def maxTagLen : Nat := 256
def maxSecretLen : Nat := 64 * 1024

/-- `u32_len`. -/
def u32Len (value : Nat) (error : String) : Res UInt32 :=
  okOr (u32TryFrom value) (formatError error)

/-- The tag loop of `serialize_item_payload`. -/
def serializeTags : List String → Res Bytes
  | [] => .ok []
  | tag :: tags => do
      let len ← u32Len (utf8 tag).length "item tag length overflow"
      return leU32 len ++ utf8 tag ++ (← serializeTags tags)

/-- `serialize_item_payload`. -/
def serializeItemPayload (item : PlainItem) : Res Bytes := do
  let labelLen ← u32Len (utf8 item.label).length "item label length overflow"
  let tagCount ← u32Len item.tags.length "item tag count overflow"
  let tags ← serializeTags item.tags
  let secretLen ← u32Len item.secret.length "item secret length overflow"
  return leU16 item.kind.asU16 ++ leU32 labelLen ++ utf8 item.label ++ leU32 tagCount ++ tags
    ++ leU32 secretLen ++ item.secret

/-- `take_u32`: the value and the advanced cursor. -/
def takeU32 (bytes : Bytes) (cursor : Nat) : Res (Nat × Nat) := do
  let stop ← okOr (checkedAdd cursor 4) (formatError "item payload length overflow")
  let raw ← okOr (slice? bytes cursor stop) (formatError "truncated item payload")
  let array ← readArray 4 raw "item payload u32 read error"
  return ((u32OfLE array).toNat, stop)

/-- `take_bytes`: the slice and the advanced cursor. -/
def takeBytes (bytes : Bytes) (cursor len : Nat) : Res (Bytes × Nat) := do
  let stop ← okOr (checkedAdd cursor len) (formatError "item payload length overflow")
  let slice ← okOr (slice? bytes cursor stop) (formatError "truncated item payload")
  return (slice, stop)

/-- The `for _ in 0..tag_count` loop of `deserialize_item_payload`. -/
def takeTags (bytes : Bytes) : Nat → Nat → Res (List String × Nat)
  | 0, cursor => .ok ([], cursor)
  | count + 1, cursor => do
      let (tagLen, cursor) ← takeU32 bytes cursor
      rejectIf (tagLen > maxTagLen) (formatError "item tag exceeds maximum length")
      let (raw, cursor) ← takeBytes bytes cursor tagLen
      let tag ← okOr (fromUtf8 raw) (formatError "invalid item tag encoding")
      let (tags, cursor) ← takeTags bytes count cursor
      return (tag :: tags, cursor)

/-- `deserialize_item_payload`. -/
def deserializeItemPayload (bytes : Bytes) : Res DecodedItem := do
  let (raw, cursor) ← takeBytes bytes 0 2
  let kindRaw ← readArray 2 raw "item kind read error"
  let kind ← ItemKind.fromU16 (u16OfLE kindRaw)
  let (labelLen, cursor) ← takeU32 bytes cursor
  rejectIf (labelLen > maxLabelLen) (formatError "item label exceeds maximum length")
  let (raw, cursor) ← takeBytes bytes cursor labelLen
  let label ← okOr (fromUtf8 raw) (formatError "invalid item label encoding")
  let (tagCount, cursor) ← takeU32 bytes cursor
  rejectIf (tagCount > maxTagCount) (formatError "item tag count exceeds maximum")
  let (tags, cursor) ← takeTags bytes tagCount cursor
  let (secretLen, cursor) ← takeU32 bytes cursor
  rejectIf (secretLen > maxSecretLen) (formatError "item secret exceeds maximum length")
  let (secret, cursor) ← takeBytes bytes cursor secretLen
  rejectIf (cursor ≠ bytes.length) (formatError "trailing item payload garbage")
  return { kind, label, tags, secret }

-- ========================================================== round trip

/-- The limits of `deserialize_item_payload`. -/
def PlainItem.WithinLimits (item : PlainItem) : Prop :=
  (utf8 item.label).length ≤ maxLabelLen ∧ item.tags.length ≤ maxTagCount
    ∧ (∀ tag ∈ item.tags, (utf8 tag).length ≤ maxTagLen) ∧ item.secret.length ≤ maxSecretLen

instance (item : PlainItem) : Decidable item.WithinLimits := instDecidableAnd

/-- A reader takes what stands at the cursor and moves past it. -/
theorem takeU32_eq_ok {bytes : Bytes} {cursor stop n : Nat} (hmax : bytes.length ≤ usizeMax) :
    takeU32 bytes cursor = .ok (n, stop)
      ↔ ∃ v : UInt32, v.toNat = n ∧ SegAt bytes cursor (leU32 v) ∧ stop = cursor + 4 := by
  simp only [takeU32, bind_eq_ok, okOr_eq_ok, checkedAdd_eq_some, slice?_eq_some_iff,
    readArray_eq_ok, pure_eq_ok, Except.ok.injEq, Prod.mk.injEq]
  constructor
  · rintro ⟨_, ⟨rfl, -⟩, _, ⟨hseg, -⟩, a, rfl, rfl, rfl⟩
    exact ⟨u32OfLE a, rfl, by rwa [leU32_u32OfLE], rfl⟩
  · rintro ⟨v, rfl, hseg, rfl⟩
    have hle := hseg.le
    rw [length_leU32] at hle
    exact ⟨_, ⟨rfl, by omega⟩, leU32 v, ⟨hseg, by simp⟩, arrayLE32 v, rfl,
      by rw [u32OfLE_arrayLE32], rfl⟩

/-- The same for as many bytes as it is told. -/
theorem takeBytes_eq_ok {bytes x : Bytes} {cursor stop len : Nat}
    (hmax : bytes.length ≤ usizeMax) :
    takeBytes bytes cursor len = .ok (x, stop)
      ↔ SegAt bytes cursor x ∧ x.length = len ∧ stop = cursor + len := by
  simp only [takeBytes, bind_eq_ok, okOr_eq_ok, checkedAdd_eq_some, slice?_eq_some_iff,
    pure_eq_ok, Except.ok.injEq, Prod.mk.injEq]
  constructor
  · rintro ⟨_, ⟨rfl, -⟩, _, ⟨hseg, hlen⟩, rfl, rfl⟩
    exact ⟨hseg, (Nat.add_left_cancel hlen).symm, rfl⟩
  · rintro ⟨hseg, rfl, rfl⟩
    have hle := hseg.le
    exact ⟨_, ⟨rfl, by omega⟩, x, ⟨hseg, rfl⟩, rfl, rfl⟩

/-- One turn of the tag loop of `serialize_item_payload`. -/
def serializeTag (tag : String) : Res Bytes := do
  let len ← u32Len (utf8 tag).length "item tag length overflow"
  return leU32 len ++ utf8 tag

/-- The tags are written one by one. -/
theorem serializeTags_eq_ok {tags : List String} {x : Bytes} :
    serializeTags tags = .ok x ↔ writeList serializeTag tags = .ok x := by
  induction tags generalizing x with
  | nil => rfl
  | cons tag tags ih =>
      simp only [serializeTags, writeList_cons_eq_ok, serializeTag, bind_eq_ok, ih, pure_eq_ok,
        Except.ok.injEq]
      constructor
      · rintro ⟨len, hlen, y, hy, rfl⟩
        exact ⟨_, y, ⟨len, hlen, rfl⟩, hy, rfl⟩
      · rintro ⟨_, y, ⟨len, hlen, rfl⟩, hy, rfl⟩
        exact ⟨len, hlen, y, hy, rfl⟩

/-- One turn of the tag loop of `deserialize_item_payload`. -/
def takeTag (bytes : Bytes) (cursor : Nat) : Res (String × Nat) := do
  let (tagLen, cursor) ← takeU32 bytes cursor
  rejectIf (tagLen > maxTagLen) (formatError "item tag exceeds maximum length")
  let (raw, cursor) ← takeBytes bytes cursor tagLen
  let tag ← okOr (fromUtf8 raw) (formatError "invalid item tag encoding")
  return (tag, cursor)

/-- And read one by one. -/
theorem takeTags_eq_ok {bytes : Bytes} {count cursor stop : Nat} {tags : List String} :
    takeTags bytes count cursor = .ok (tags, stop)
      ↔ readMany (takeTag bytes) count cursor = .ok (tags, stop) := by
  induction count generalizing cursor tags stop with
  | zero => rfl
  | succ count ih =>
      simp only [takeTags, readMany, takeTag, bind_eq_ok, Prod.exists, ih, pure_eq_ok,
        Except.ok.injEq, Prod.mk.injEq]
      constructor
      · rintro ⟨len, c, hlen, u, hle, raw, c', hraw, tag, htag, tags, c'', htags, rfl, rfl⟩
        exact ⟨tag, c', ⟨len, c, hlen, u, hle, raw, c', hraw, tag, htag, rfl, rfl⟩,
          tags, c'', htags, rfl, rfl⟩
      · rintro ⟨_, _, ⟨len, c, hlen, u, hle, raw, c', hraw, tag, htag, rfl, rfl⟩, tags, c'', htags,
          rfl, rfl⟩
        exact ⟨len, c, hlen, u, hle, raw, c', hraw, tag, htag, tags, c'', htags, rfl, rfl⟩

/-- The reader of a tag inverts the writer, within the limit of a tag. -/
theorem inverts_takeTag {bytes : Bytes} (hmax : bytes.length ≤ usizeMax) :
    Inverts bytes (fun tag => (utf8 tag).length ≤ maxTagLen) serializeTag (takeTag bytes) := by
  intro cursor tag stop
  simp only [takeTag, serializeTag, u32Len, bind_eq_ok, Prod.exists, takeU32_eq_ok hmax,
    takeBytes_eq_ok hmax, rejectIf_eq_ok, okOr_eq_ok, u32TryFrom_eq_some, pure_eq_ok,
    Except.ok.injEq, Prod.mk.injEq]
  constructor
  · rintro ⟨_, _, ⟨len, rfl, hlenSeg, rfl⟩, -, hle, raw, _, ⟨hraw, hlen, rfl⟩, _, htag, rfl, rfl⟩
    obtain rfl := utf8_of_fromUtf8 htag
    refine ⟨by omega, _, ⟨len, hlen.symm, rfl⟩, ?_, ?_⟩
    · rw [segAt_append, length_leU32]
      exact ⟨hlenSeg, hraw⟩
    · rw [List.length_append, length_leU32]
      omega
  · rintro ⟨hle, _, ⟨len, hlen, rfl⟩, hseg, rfl⟩
    rw [segAt_append, length_leU32] at hseg
    refine ⟨_, _, ⟨len, rfl, hseg.1, rfl⟩, (), by omega, utf8 tag, _, ⟨hseg.2, hlen.symm, rfl⟩, tag,
      fromUtf8_utf8 tag, rfl, ?_⟩
    rw [List.length_append, length_leU32]
    omega

/-- A payload is written if every length fits its `u32`, and then is this. -/
theorem serializeItemPayload_eq_ok {item : PlainItem} {x : Bytes} :
    serializeItemPayload item = .ok x
      ↔ ∃ labelLen tagCount secretLen : UInt32, ∃ tags,
          labelLen.toNat = (utf8 item.label).length ∧ tagCount.toNat = item.tags.length
          ∧ serializeTags item.tags = .ok tags ∧ secretLen.toNat = item.secret.length
          ∧ x = leU16 item.kind.asU16 ++ leU32 labelLen ++ utf8 item.label ++ leU32 tagCount
              ++ tags ++ leU32 secretLen ++ item.secret := by
  simp only [serializeItemPayload, u32Len, bind_eq_ok, okOr_eq_ok, u32TryFrom_eq_some, pure_eq_ok,
    Except.ok.injEq]
  constructor
  · rintro ⟨labelLen, hlabel, tagCount, hcount, tags, htags, secretLen, hsecret, rfl⟩
    exact ⟨labelLen, tagCount, secretLen, tags, hlabel, hcount, htags, hsecret, rfl⟩
  · rintro ⟨labelLen, tagCount, secretLen, tags, hlabel, hcount, htags, hsecret, rfl⟩
    exact ⟨labelLen, hlabel, tagCount, hcount, tags, htags, secretLen, hsecret, rfl⟩

/-- The bytes the tag loop writes. -/
def tagsLen (tags : List String) : Nat := (tags.map fun tag => 4 + (utf8 tag).length).sum

/-- The length of an item's payload. -/
def PlainItem.payloadLen (item : PlainItem) : Nat :=
  14 + (utf8 item.label).length + tagsLen item.tags + item.secret.length

/-- Each tag takes its length field and its text. -/
theorem length_of_serializeTags {tags : List String} {x : Bytes}
    (h : serializeTags tags = .ok x) : x.length = tagsLen tags := by
  induction tags generalizing x with
  | nil =>
      rw [serializeTags, Except.ok.injEq] at h
      subst h
      rfl
  | cons tag tags ih =>
      simp only [serializeTags, bind_eq_ok, pure_eq_ok, Except.ok.injEq] at h
      obtain ⟨len, -, y, hy, rfl⟩ := h
      have hlen := ih hy
      simp only [tagsLen, List.map_cons, List.sum_cons, List.length_append, length_leU32] at hlen ⊢
      rw [hlen]

/-- No tag takes less than a byte. -/
theorem length_le_tagsLen (tags : List String) : tags.length ≤ tagsLen tags := by
  induction tags with
  | nil => exact Nat.le_refl 0
  | cons tag tags ih =>
      rw [tagsLen] at ih ⊢
      rw [List.length_cons, List.map_cons, List.sum_cons]
      omega

/-- The length of a payload is known from the item. -/
theorem length_of_serializeItemPayload {item : PlainItem} {x : Bytes}
    (h : serializeItemPayload item = .ok x) : x.length = item.payloadLen := by
  obtain ⟨labelLen, tagCount, secretLen, tags, -, -, htags, -, rfl⟩ :=
    serializeItemPayload_eq_ok.mp h
  have hlen := length_of_serializeTags htags
  simp only [List.length_append, length_leU16, length_leU32, hlen, PlainItem.payloadLen]
  omega

/-- Each length of the item fits its `u32`. -/
def PlainItem.Fits (item : PlainItem) : Prop :=
  (utf8 item.label).length < 2 ^ 32 ∧ item.tags.length < 2 ^ 32
    ∧ (∀ tag ∈ item.tags, (utf8 tag).length < 2 ^ 32) ∧ item.secret.length < 2 ^ 32

instance (item : PlainItem) : Decidable item.Fits := instDecidableAnd

/-- Nothing but a length that does not fit keeps the tags from
being written. -/
theorem exists_serializeTags {tags : List String} :
    (∃ x, serializeTags tags = .ok x) ↔ ∀ tag ∈ tags, (utf8 tag).length < 2 ^ 32 := by
  simp only [serializeTags_eq_ok, exists_writeList, serializeTag, u32Len, bind_eq_ok, okOr_eq_ok,
    u32TryFrom_eq_some, pure_eq_ok, Except.ok.injEq]
  refine forall₂_congr fun tag _ => ⟨?_, fun hlt => ⟨_, UInt32.ofNat _, toNat_u32_ofNat hlt, rfl⟩⟩
  rintro ⟨_, len, hlen, -⟩
  rw [← hlen]
  exact len.toNat_lt

/-- An item serializes iff it fits. -/
theorem exists_serializeItemPayload_iff {item : PlainItem} :
    (∃ x, serializeItemPayload item = .ok x) ↔ item.Fits := by
  constructor
  · rintro ⟨x, h⟩
    obtain ⟨labelLen, tagCount, secretLen, tags, hlabel, hcount, htags, hsecret, -⟩ :=
      serializeItemPayload_eq_ok.mp h
    rw [PlainItem.Fits, ← hlabel, ← hcount, ← hsecret]
    exact ⟨labelLen.toNat_lt, tagCount.toNat_lt, exists_serializeTags.mp ⟨tags, htags⟩,
      secretLen.toNat_lt⟩
  · rintro ⟨hlabel, hcount, htags, hsecret⟩
    obtain ⟨tags, htags⟩ := exists_serializeTags.mpr htags
    exact ⟨_, serializeItemPayload_eq_ok.mpr ⟨UInt32.ofNat (utf8 item.label).length,
      UInt32.ofNat item.tags.length, UInt32.ofNat item.secret.length, tags, toNat_u32_ofNat hlabel,
      toNat_u32_ofNat hcount, htags, toNat_u32_ofNat hsecret, rfl⟩⟩

/-- A tag is no longer than all of them. -/
theorem le_tagsLen {tags : List String} {tag : String} (h : tag ∈ tags) :
    (utf8 tag).length ≤ tagsLen tags := by
  induction tags with
  | nil => cases h
  | cons tag' tags ih =>
      rw [tagsLen] at ih ⊢
      rw [List.map_cons, List.sum_cons]
      rcases List.mem_cons.mp h with rfl | h
      · omega
      · have hle := ih h
        omega

/-- An item whose payload fits a `u32` serializes. -/
theorem exists_serializeItemPayload {item : PlainItem} (h : item.payloadLen < 2 ^ 32) :
    ∃ x, serializeItemPayload item = .ok x := by
  rw [PlainItem.payloadLen] at h
  have hcount := length_le_tagsLen item.tags
  refine exists_serializeItemPayload_iff.mpr ⟨by omega, by omega, fun tag htag => ?_, by omega⟩
  have htagLe := le_tagsLen htag
  omega

/-- Bounded tags are bounded together. -/
theorem tagsLen_le {tags : List String} {bound : Nat}
    (h : ∀ tag ∈ tags, (utf8 tag).length ≤ bound) :
    tagsLen tags ≤ tags.length * (4 + bound) := by
  induction tags with
  | nil => exact Nat.zero_le _
  | cons tag tags ih =>
      obtain ⟨htag, htags⟩ := List.forall_mem_cons.mp h
      have hle := ih htags
      rw [tagsLen] at hle ⊢
      rw [List.map_cons, List.sum_cons, List.length_cons, Nat.succ_mul]
      omega

/-- An item within the limits has a small payload. -/
theorem PlainItem.WithinLimits.payloadLen_le {item : PlainItem} (h : item.WithinLimits) :
    item.payloadLen ≤ 2 ^ 17 := by
  obtain ⟨hlabel, hcount, htags, hsecret⟩ := h
  have hle := tagsLen_le htags
  have h1 : maxLabelLen = 1024 := rfl
  have h2 : maxTagCount = 64 := rfl
  have h3 : maxSecretLen = 64 * 1024 := rfl
  have h4 : maxTagLen = 256 := rfl
  rw [PlainItem.payloadLen]
  rw [h4] at hle
  omega

/-- One that fits and has at most 64 tags is far from filling memory. -/
theorem PlainItem.Fits.payloadLen_le {item : PlainItem} (h : item.Fits)
    (hcount : item.tags.length ≤ maxTagCount) : item.payloadLen ≤ 2 ^ 40 := by
  obtain ⟨hlabel, -, htags, hsecret⟩ := h
  have hle := tagsLen_le fun tag htag => (htags tag htag).le
  have h2 : maxTagCount = 64 := rfl
  rw [PlainItem.payloadLen]
  omega

/-- Bytes decode to an item within the limits where they are its writing. -/
theorem deserializeItemPayload_eq_ok {bytes : Bytes} {decoded : DecodedItem}
    (hmax : bytes.length ≤ usizeMax) :
    deserializeItemPayload bytes = .ok decoded
      ↔ decoded.item.WithinLimits ∧ serializeItemPayload decoded.item = .ok bytes := by
  simp only [deserializeItemPayload, bind_eq_ok, Prod.exists, takeBytes_eq_ok hmax,
    takeU32_eq_ok hmax, readArray_eq_ok, ItemKind.fromU16_eq_ok, rejectIf_eq_ok, okOr_eq_ok,
    takeTags_eq_ok, pure_eq_ok, Except.ok.injEq, serializeItemPayload_eq_ok]
  constructor
  · rintro ⟨_, _, ⟨hkindSeg, -, rfl⟩, a, rfl, kind, hkind, _, _, ⟨labelLen, rfl, hlabelLenSeg, rfl⟩,
      -, hlabelLe, raw, _, ⟨hlabelSeg, hlabelLen, rfl⟩, label, hlabel, _, _,
      ⟨tagCount, rfl, hcountSeg, rfl⟩, -, hcountLe, tags, _, htags, _, _,
      ⟨secretLen, rfl, hsecretLenSeg, rfl⟩, -, hsecretLe, secret, _, ⟨hsecretSeg, hsecretLen, rfl⟩,
      -, hend, rfl⟩
    -- what was read: each field, and the limit checked before it was taken
    obtain rfl := utf8_of_fromUtf8 hlabel
    have hcountEnd := hcountSeg.le
    rw [length_leU32] at hcountEnd
    obtain ⟨hcount, htagLens, x, hx, htagsSeg, rfl⟩ :=
      (readMany_eq_ok (inverts_takeTag hmax) hcountEnd).mp htags
    rw [← hlabelLen] at hlabelLe hcountSeg htagsSeg hsecretLenSeg hsecretSeg hend
    rw [← hcount] at hcountLe
    rw [← hsecretLen] at hsecretLe hend
    simp only [Nat.zero_add]
      at hlabelLenSeg hlabelSeg hcountSeg htagsSeg hsecretLenSeg hsecretSeg hend
    refine ⟨⟨not_lt.mp hlabelLe, not_lt.mp hcountLe, htagLens, not_lt.mp hsecretLe⟩, labelLen,
      tagCount, secretLen, x, hlabelLen.symm, hcount.symm, serializeTags_eq_ok.mpr hx,
      hsecretLen.symm, ?_⟩
    rw [← leU16_u16OfLE, hkind] at hkindSeg
    simp only [DecodedItem.item]
    refine SegAt.eq_of_length ?_ ?_
    · simp only [segAt_append, List.length_append, length_leU16, length_leU32, Nat.zero_add]
      exact ⟨⟨⟨⟨⟨⟨hkindSeg, hlabelLenSeg⟩, hlabelSeg⟩, hcountSeg⟩, htagsSeg⟩, hsecretLenSeg⟩,
        hsecretSeg⟩
    · simp only [List.length_append, length_leU16, length_leU32]
      omega
  · rintro ⟨⟨hlabelLe, hcountLe, htagLens, hsecretLe⟩, labelLen, tagCount, secretLen, x, hlabel,
      hcount, htags, hsecret, hbytes⟩
    have hseg := segAt_self bytes
    have hlen := congrArg List.length hbytes
    rw [hbytes] at hseg
    simp only [segAt_append, List.length_append, length_leU16, length_leU32,
      Nat.zero_add] at hseg hlen
    rw [← hbytes] at hseg
    obtain ⟨⟨⟨⟨⟨⟨hkindSeg, hlabelLenSeg⟩, hlabelSeg⟩, hcountSeg⟩, htagsSeg⟩, hsecretLenSeg⟩,
      hsecretSeg⟩ := hseg
    rw [← hlabel] at hcountSeg htagsSeg hsecretLenSeg hsecretSeg hlen
    have hcountEnd := hcountSeg.le
    rw [length_leU32] at hcountEnd
    -- what was written: the fields stand in this order from the start
    have hloop := (readMany_eq_ok (inverts_takeTag hmax) hcountEnd).mpr
      ⟨hcount.symm, htagLens, x, serializeTags_eq_ok.mp htags, htagsSeg, rfl⟩
    exact ⟨_, _, ⟨hkindSeg, length_leU16 _, rfl⟩, arrayLE16 decoded.item.kind.asU16, rfl,
      decoded.kind, u16OfLE_arrayLE16 _, _, _, ⟨labelLen, rfl, hlabelLenSeg, rfl⟩,
      (), by omega, _, _, ⟨hlabelSeg, hlabel.symm, rfl⟩, decoded.label, fromUtf8_utf8 _, _, _,
      ⟨tagCount, rfl, hcountSeg, rfl⟩, (), by omega, decoded.tags, _, hloop, _, _,
      ⟨secretLen, rfl, hsecretLenSeg, rfl⟩, (), by omega, decoded.secret, _,
      ⟨hsecretSeg, hsecret.symm, rfl⟩, (), by omega, rfl⟩

/-- Where the counts agree, tags that begin the same bytes are the same, and
so is what follows. -/
theorem serializeTags_inj {tags tags' : List String} {x x' rest rest' : Bytes}
    (h : serializeTags tags = .ok x) (h' : serializeTags tags' = .ok x')
    (hcount : tags.length = tags'.length) (hsame : x ++ rest = x' ++ rest') :
    tags = tags' ∧ rest = rest' := by
  induction tags generalizing tags' x x' with
  | nil =>
      obtain rfl := List.length_eq_zero_iff.mp hcount.symm
      rw [serializeTags, Except.ok.injEq] at h h'
      subst h h'
      exact ⟨rfl, hsame⟩
  | cons tag tags ih =>
      obtain ⟨tag', tags', rfl⟩ := List.exists_cons_of_length_eq_add_one hcount.symm
      simp only [serializeTags, u32Len, bind_eq_ok, okOr_eq_ok, u32TryFrom_eq_some, pure_eq_ok,
        Except.ok.injEq] at h h'
      obtain ⟨len, hlen, y, hy, rfl⟩ := h
      obtain ⟨len', hlen', y', hy', rfl⟩ := h'
      simp only [List.append_assoc] at hsame
      obtain ⟨htag, htail⟩ := framed_inj hlen hlen' hsame
      obtain ⟨rfl, hrest⟩ := ih hy hy' (Nat.succ.inj hcount) htail
      exact ⟨by rw [utf8_inj htag], hrest⟩

/-- Kinds have numbers of their own. -/
theorem ItemKind.asU16_inj {kind kind' : ItemKind} (h : kind.asU16 = kind'.asU16) :
    kind = kind' := by
  have hkind := ItemKind.fromU16_asU16 kind
  rw [h, ItemKind.fromU16_asU16, Except.ok.injEq] at hkind
  exact hkind.symm

/-- No two items have one payload. -/
theorem serializeItemPayload_inj {item item' : PlainItem} {x : Bytes}
    (h : serializeItemPayload item = .ok x) (h' : serializeItemPayload item' = .ok x) :
    item = item' := by
  obtain ⟨labelLen, tagCount, secretLen, tags, hlabel, hcount, htags, hsecret, rfl⟩ :=
    serializeItemPayload_eq_ok.mp h
  obtain ⟨labelLen', tagCount', secretLen', tags', hlabel', hcount', htags', hsecret', hsame⟩ :=
    serializeItemPayload_eq_ok.mp h'
  simp only [List.append_assoc] at hsame
  obtain ⟨hkind, hsame⟩ := leU16_append_inj hsame
  obtain ⟨hlabelEq, hsame⟩ := framed_inj hlabel hlabel' hsame
  obtain ⟨htagCount, hsame⟩ := leU32_append_inj hsame
  have hcountEq : item.tags.length = item'.tags.length := by
    rw [← hcount, ← hcount', htagCount]
  obtain ⟨htagsEq, hsame⟩ := serializeTags_inj htags htags' hcountEq hsame
  obtain ⟨-, hsecretEq⟩ := leU32_append_inj hsame
  obtain ⟨kind, label, secret, itemTags⟩ := item
  obtain ⟨kind', label', secret', itemTags'⟩ := item'
  simp only at hkind hlabelEq htagsEq hsecretEq
  rw [ItemKind.asU16_inj hkind, utf8_inj hlabelEq, htagsEq, hsecretEq]

/-- A written payload decodes iff the item is within the decoder's
limits, and then to the item. -/
theorem deserializeItemPayload_of_serialize {item : PlainItem} {x : Bytes} {decoded : DecodedItem}
    (h : serializeItemPayload item = .ok x) (hmax : x.length ≤ usizeMax) :
    deserializeItemPayload x = .ok decoded ↔ item.WithinLimits ∧ decoded = item.view := by
  rw [deserializeItemPayload_eq_ok hmax]
  constructor
  · rintro ⟨hlimits, hser⟩
    obtain rfl := serializeItemPayload_inj h hser
    exact ⟨hlimits, rfl⟩
  · rintro ⟨hlimits, rfl⟩
    exact ⟨hlimits, h⟩

/-- What decodes is addressable. -/
theorem length_of_deserializeItemPayload {bytes : Bytes} {decoded : DecodedItem}
    (h : deserializeItemPayload bytes = .ok decoded) : bytes.length ≤ usizeMax := by
  simp only [deserializeItemPayload, bind_eq_ok, Prod.exists, rejectIf_eq_ok] at h
  obtain ⟨_, _, -, _, -, _, -, _, _, -, -, -, _, _, -, _, -, _, _, -, -, -, _, _, -, _, _, -, -, -,
    secret, stop, hsecret, -, hend, -⟩ := h
  simp only [takeBytes, bind_eq_ok, okOr_eq_ok, checkedAdd_eq_some, pure_eq_ok, Except.ok.injEq,
    Prod.mk.injEq] at hsecret
  obtain ⟨_, ⟨rfl, hle⟩, _, -, -, rfl⟩ := hsecret
  rwa [← Decidable.not_not.mp hend]

/-- The payload codec, both ways: an item within the limits comes back, and
accepted bytes are the one payload of what they decode to. -/
theorem itemPayload_codec :
    (∀ item : PlainItem, item.WithinLimits →
        ∃ x, serializeItemPayload item = .ok x ∧ deserializeItemPayload x = .ok item.view)
      ∧ ∀ (bytes : Bytes) (decoded : DecodedItem), deserializeItemPayload bytes = .ok decoded →
          decoded.item.WithinLimits ∧ serializeItemPayload decoded.item = .ok bytes := by
  constructor
  · intro item hlimits
    have hle := hlimits.payloadLen_le
    have hsmall : 2 ^ 17 ≤ usizeMax := by decide
    obtain ⟨x, hser⟩ := exists_serializeItemPayload (by omega : item.payloadLen < 2 ^ 32)
    have hlen := length_of_serializeItemPayload hser
    exact ⟨x, hser, (deserializeItemPayload_of_serialize hser (by omega)).mpr ⟨hlimits, rfl⟩⟩
  · intro bytes decoded h
    exact (deserializeItemPayload_eq_ok (length_of_deserializeItemPayload h)).mp h

/-- The payload of a note with one tag. -/
theorem itemPayload_codec_of_note :
    ∃ x, serializeItemPayload ⟨.secureNote, "note", [1, 2, 3], ["tag"]⟩ = .ok x
      ∧ deserializeItemPayload x = .ok ⟨.secureNote, "note", ["tag"], [1, 2, 3]⟩ :=
  itemPayload_codec.1 ⟨.secureNote, "note", [1, 2, 3], ["tag"]⟩ (by decide)

end MeissnerSeal
