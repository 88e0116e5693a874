/-
Byte strings as lists: the fixed-width little-endian codec and the
occurrence predicate that every offset-based serializer and parser of
a binary format reduces to.

# Why an occurrence predicate

A serializer concatenates; a parser indexes. `SegAt b off x` — the
bytes `x` stand in `b` at offset `off` — is the meeting point: an
append splits it (`segAt_append`), a bounds-checked slice reads it
back (`slice?_eq_some_iff`), and both rules are equivalences, so one
specification of a parser serves the round trip and the canonical-form
direction alike.
-/
import Mathlib.Data.Vector.Basic

namespace ByteCodec

/-- A byte string. -/
abbrev Bytes := List UInt8

/-- A fixed-size byte array. -/
abbrev U8Array (n : Nat) := List.Vector UInt8 n

instance {n : Nat} (a : U8Array n) (arrays : List (U8Array n)) : Decidable (a ∈ arrays) :=
  inferInstanceAs (Decidable (a ∈ arrays))

-- ================================================ little-endian words

/-- The `k` little-endian bytes of `n`. -/
def toLE : Nat → Nat → Bytes
  | 0, _ => []
  | k + 1, n => UInt8.ofNat (n % 256) :: toLE k (n / 256)

/-- The number a little-endian byte string denotes. -/
def ofLE : Bytes → Nat
  | [] => 0
  | b :: bs => b.toNat + 256 * ofLE bs

@[simp] theorem length_toLE (k n : Nat) : (toLE k n).length = k := by
  induction k generalizing n with
  | zero => rfl
  | succ k ih => simp [toLE, ih]

/-- Decoding an encoded number that fits gives it back. -/
theorem ofLE_toLE {k n : Nat} (h : n < 256 ^ k) : ofLE (toLE k n) = n := by
  induction k generalizing n with
  | zero =>
      have hn : n = 0 := by simpa using h
      rw [hn]
      rfl
  | succ k ih =>
      have hdiv : n / 256 < 256 ^ k := by
        rw [Nat.div_lt_iff_lt_mul (by decide), ← Nat.pow_succ]
        exact h
      have hbyte : (UInt8.ofNat (n % 256)).toNat = n % 256 := by
        simp [UInt8.toNat_ofNat']
      rw [toLE, ofLE, ih hdiv, hbyte]
      omega

/-- Encoding a decoded byte string gives it back. -/
theorem toLE_ofLE (bs : Bytes) : toLE bs.length (ofLE bs) = bs := by
  induction bs with
  | nil => rfl
  | cons b bs ih =>
      have hb : b.toNat < 256 := b.toNat_lt
      have hmod : (b.toNat + 256 * ofLE bs) % 256 = b.toNat := by omega
      have hdiv : (b.toNat + 256 * ofLE bs) / 256 = ofLE bs := by omega
      simp only [List.length_cons, ofLE, toLE, hmod, hdiv, ih, UInt8.ofNat_toNat]

/-- A decoded number fits its width. -/
theorem ofLE_lt (bs : Bytes) : ofLE bs < 256 ^ bs.length := by
  induction bs with
  | nil => simp [ofLE]
  | cons b bs ih =>
      have hb : b.toNat < 256 := b.toNat_lt
      simp only [ofLE, List.length_cons, Nat.pow_succ]
      omega

/-- Little-endian encodings of numbers that fit are distinct. -/
theorem toLE_inj {k m n : Nat} (hm : m < 256 ^ k) (hn : n < 256 ^ k)
    (h : toLE k m = toLE k n) : m = n := by
  rw [← ofLE_toLE hm, ← ofLE_toLE hn, h]

/-- The little-endian bytes of a `u16`. -/
def leU16 (v : UInt16) : Bytes := toLE 2 v.toNat

/-- The little-endian bytes of a `u32`. -/
def leU32 (v : UInt32) : Bytes := toLE 4 v.toNat

/-- The little-endian bytes of a `u64`. -/
def leU64 (v : UInt64) : Bytes := toLE 8 v.toNat

/-- The little-endian bytes of an `i64`, in two's complement. -/
def leI64 (v : Int64) : Bytes := leU64 v.toUInt64

@[simp] theorem length_leU16 (v : UInt16) : (leU16 v).length = 2 := length_toLE ..
@[simp] theorem length_leU32 (v : UInt32) : (leU32 v).length = 4 := length_toLE ..
@[simp] theorem length_leU64 (v : UInt64) : (leU64 v).length = 8 := length_toLE ..
@[simp] theorem length_leI64 (v : Int64) : (leI64 v).length = 8 := length_leU64 _

/-- `u16::from_le_bytes`. -/
def u16OfLE (a : U8Array 2) : UInt16 := UInt16.ofNat (ofLE a.toList)

/-- `u32::from_le_bytes`. -/
def u32OfLE (a : U8Array 4) : UInt32 := UInt32.ofNat (ofLE a.toList)

/-- `u64::from_le_bytes`. -/
def u64OfLE (a : U8Array 8) : UInt64 := UInt64.ofNat (ofLE a.toList)

/-- A decoded array of known length fits the width of its length. -/
private theorem ofLE_toList_lt {k : Nat} (a : U8Array k) : ofLE a.toList < 256 ^ k := by
  have h := ofLE_lt a.toList
  rwa [List.Vector.toList_length] at h

/-- Re-encoding a decoded array gives it back. -/
private theorem toLE_ofLE_toList {k : Nat} (a : U8Array k) :
    toLE k (ofLE a.toList) = a.toList := by
  have h := toLE_ofLE a.toList
  rwa [List.Vector.toList_length] at h

@[simp] theorem leU16_u16OfLE (a : U8Array 2) : leU16 (u16OfLE a) = a.toList := by
  have hlt : ofLE a.toList < 2 ^ 16 := ofLE_toList_lt a
  rw [leU16, u16OfLE, UInt16.toNat_ofNat_of_lt' hlt, toLE_ofLE_toList]

@[simp] theorem leU32_u32OfLE (a : U8Array 4) : leU32 (u32OfLE a) = a.toList := by
  have hlt : ofLE a.toList < 2 ^ 32 := ofLE_toList_lt a
  rw [leU32, u32OfLE, UInt32.toNat_ofNat_of_lt' hlt, toLE_ofLE_toList]

@[simp] theorem leU64_u64OfLE (a : U8Array 8) : leU64 (u64OfLE a) = a.toList := by
  have hlt : ofLE a.toList < 2 ^ 64 := ofLE_toList_lt a
  rw [leU64, u64OfLE, UInt64.toNat_ofNat_of_lt' hlt, toLE_ofLE_toList]

theorem leU16_inj {v w : UInt16} (h : leU16 v = leU16 w) : v = w :=
  UInt16.toNat_inj.mp (toLE_inj v.toNat_lt w.toNat_lt h)

theorem leU32_inj {v w : UInt32} (h : leU32 v = leU32 w) : v = w :=
  UInt32.toNat_inj.mp (toLE_inj v.toNat_lt w.toNat_lt h)

theorem leU64_inj {v w : UInt64} (h : leU64 v = leU64 w) : v = w :=
  UInt64.toNat_inj.mp (toLE_inj v.toNat_lt w.toNat_lt h)

theorem leI64_inj {v w : Int64} (h : leI64 v = leI64 w) : v = w := by
  rw [← v.toInt64_toUInt64, leU64_inj h, w.toInt64_toUInt64]

/-- A field of fixed width is cut off the front in one way. -/
theorem leU16_append_inj {v w : UInt16} {x y : Bytes} (h : leU16 v ++ x = leU16 w ++ y) :
    v = w ∧ x = y := by
  obtain ⟨hfield, hrest⟩ := List.append_inj h (by rw [length_leU16, length_leU16])
  exact ⟨leU16_inj hfield, hrest⟩

theorem leU32_append_inj {v w : UInt32} {x y : Bytes} (h : leU32 v ++ x = leU32 w ++ y) :
    v = w ∧ x = y := by
  obtain ⟨hfield, hrest⟩ := List.append_inj h (by rw [length_leU32, length_leU32])
  exact ⟨leU32_inj hfield, hrest⟩

theorem array_append_inj {k : Nat} {a b : U8Array k} {x y : Bytes}
    (h : a.toList ++ x = b.toList ++ y) : a = b ∧ x = y := by
  obtain ⟨hfield, hrest⟩ := List.append_inj h (a.toList_length.trans b.toList_length.symm)
  exact ⟨List.Vector.toList_injective hfield, hrest⟩

/-- The bytes of a word as a fixed-size array. -/
def arrayLE16 (v : UInt16) : U8Array 2 := ⟨leU16 v, length_leU16 v⟩
def arrayLE32 (v : UInt32) : U8Array 4 := ⟨leU32 v, length_leU32 v⟩
def arrayLE64 (v : UInt64) : U8Array 8 := ⟨leU64 v, length_leU64 v⟩

@[simp] theorem toList_arrayLE16 (v : UInt16) : (arrayLE16 v).toList = leU16 v := rfl
@[simp] theorem toList_arrayLE32 (v : UInt32) : (arrayLE32 v).toList = leU32 v := rfl
@[simp] theorem toList_arrayLE64 (v : UInt64) : (arrayLE64 v).toList = leU64 v := rfl

@[simp] theorem u16OfLE_arrayLE16 (v : UInt16) : u16OfLE (arrayLE16 v) = v :=
  leU16_inj (leU16_u16OfLE _)

@[simp] theorem u32OfLE_arrayLE32 (v : UInt32) : u32OfLE (arrayLE32 v) = v :=
  leU32_inj (leU32_u32OfLE _)

@[simp] theorem u64OfLE_arrayLE64 (v : UInt64) : u64OfLE (arrayLE64 v) = v :=
  leU64_inj (leU64_u64OfLE _)

-- ================================================ occurrence at an offset

/-- The bytes `x` stand in `b` at offset `off`. -/
def SegAt (b : Bytes) (off : Nat) (x : Bytes) : Prop :=
  ∃ pre post, b = pre ++ (x ++ post) ∧ pre.length = off

theorem SegAt.le {b x : Bytes} {off : Nat} (h : SegAt b off x) :
    off + x.length ≤ b.length := by
  obtain ⟨pre, post, rfl, rfl⟩ := h
  simp only [List.length_append]
  omega

/-- A byte string stands in itself at offset zero. -/
theorem segAt_self (b : Bytes) : SegAt b 0 b := ⟨[], [], by simp, rfl⟩

/-- A segment as long as the whole string is the whole string. -/
theorem SegAt.eq_of_length {b x : Bytes} (h : SegAt b 0 x) (hlen : x.length = b.length) :
    b = x := by
  obtain ⟨pre, post, rfl, hpre⟩ := h
  have hpre' : pre = [] := List.eq_nil_of_length_eq_zero hpre
  subst hpre'
  have hpost : post = [] := by
    apply List.eq_nil_of_length_eq_zero
    simp only [List.nil_append, List.length_append] at hlen
    omega
  simp [hpost]

/-- Two segments of one length at one offset agree. -/
theorem SegAt.unique {b x y : Bytes} {off : Nat} (hx : SegAt b off x) (hy : SegAt b off y)
    (hlen : x.length = y.length) : x = y := by
  obtain ⟨pre, post, rfl, rfl⟩ := hx
  obtain ⟨pre', post', hb, hpre⟩ := hy
  have htail : x ++ post = y ++ post' := (List.append_inj hb hpre.symm).2
  exact (List.append_inj htail hlen).1

/-- An append stands at an offset iff its halves stand one after the other. -/
theorem segAt_append {b x y : Bytes} {off : Nat} :
    SegAt b off (x ++ y) ↔ SegAt b off x ∧ SegAt b (off + x.length) y := by
  constructor
  · rintro ⟨pre, post, rfl, rfl⟩
    exact ⟨⟨pre, y ++ post, by simp, rfl⟩, ⟨pre ++ x, post, by simp, by simp⟩⟩
  · rintro ⟨⟨pre, post, rfl, rfl⟩, ⟨pre', post', hb, hpre⟩⟩
    have hsplit : (pre ++ x) ++ post = pre' ++ (y ++ post') := by simpa using hb
    have hlen : (pre ++ x).length = pre'.length := by simp [hpre]
    have hpost : post = y ++ post' := (List.append_inj hsplit hlen).2
    exact ⟨pre, post', by simp [hpost], rfl⟩

theorem segAt_nil {b : Bytes} {off : Nat} (h : off ≤ b.length) : SegAt b off [] :=
  ⟨b.take off, b.drop off, by simp, by simp [h]⟩

/-- A segment at the front is what the front holds. -/
theorem SegAt.take_eq {b x : Bytes} (h : SegAt b 0 x) : b.take x.length = x := by
  obtain ⟨pre, post, rfl, hpre⟩ := h
  rw [List.eq_nil_of_length_eq_zero hpre, List.nil_append, List.take_left]

/-- A segment at the front of a tail. -/
theorem SegAt.of_drop {b x : Bytes} {off : Nat} (h : SegAt (b.drop off) 0 x)
    (hoff : off ≤ b.length) : SegAt b off x := by
  obtain ⟨pre, post, hb, hpre⟩ := h
  rw [List.eq_nil_of_length_eq_zero hpre, List.nil_append] at hb
  refine ⟨b.take off, post, ?_, by rw [List.length_take, Nat.min_eq_left hoff]⟩
  rw [← hb]
  exact (List.take_append_drop off b).symm

theorem SegAt.drop {b x : Bytes} {off : Nat} (h : SegAt b off x) : SegAt (b.drop off) 0 x := by
  obtain ⟨pre, post, rfl, rfl⟩ := h
  exact ⟨[], post, by simp, rfl⟩

/-- A segment of a segment is a segment. -/
theorem SegAt.trans {b x y : Bytes} {off off' : Nat} (hx : SegAt b off x)
    (hy : SegAt x off' y) : SegAt b (off + off') y := by
  obtain ⟨pre, post, rfl, rfl⟩ := hx
  obtain ⟨pre', post', rfl, rfl⟩ := hy
  exact ⟨pre ++ pre', post' ++ post, by simp, by simp⟩

/-- A segment inside a longer segment at the same place is a segment of it. -/
theorem SegAt.within {b x y : Bytes} {off off' : Nat} (hx : SegAt b off x)
    (hy : SegAt b (off + off') y) (hle : off' + y.length ≤ x.length) : SegAt x off' y := by
  have hsplit : x = x.take off' ++ ((x.drop off').take y.length
      ++ (x.drop off').drop y.length) := by
    rw [List.take_append_drop, List.take_append_drop]
  have htake : (x.take off').length = off' := by
    rw [List.length_take]
    omega
  have hx' := hx
  rw [hsplit, segAt_append, segAt_append, htake] at hx'
  have hmid : (x.drop off').take y.length = y := by
    refine hx'.2.1.unique hy ?_
    rw [List.length_take, List.length_drop]
    omega
  rw [hmid] at hsplit
  exact ⟨x.take off', (x.drop off').drop y.length, hsplit, htake⟩

/-- What stands from an offset to the end begins with the segment there. -/
theorem SegAt.exists_tail {b x : Bytes} {off : Nat} (h : SegAt b off x) :
    ∃ tail, SegAt b off tail ∧ b.length = off + tail.length ∧ SegAt tail 0 x := by
  obtain ⟨pre, post, rfl, rfl⟩ := h
  exact ⟨x ++ post, ⟨pre, [], by simp, rfl⟩, by simp, ⟨[], post, by simp, rfl⟩⟩

/-- Every in-bounds window is a segment. -/
theorem exists_segAt {b : Bytes} {off n : Nat} (h : off + n ≤ b.length) :
    ∃ x, x.length = n ∧ SegAt b off x := by
  refine ⟨(b.drop off).take n, ?_, b.take off, (b.drop off).drop n, ?_, ?_⟩
  · rw [List.length_take, List.length_drop]
    omega
  · rw [List.take_append_drop, List.take_append_drop]
  · rw [List.length_take]
    omega

/-- The bytes with `y` in the place of what stands at `off`. -/
def spliced (b : Bytes) (off : Nat) (y : Bytes) : Bytes :=
  b.take off ++ (y ++ b.drop (off + y.length))

/-- A segment can be replaced by one of its length; what lies apart
from it stays. -/
theorem SegAt.spliced {b x y : Bytes} {off : Nat} (h : SegAt b off x) (hlen : y.length = x.length) :
    (spliced b off y).length = b.length ∧ SegAt (spliced b off y) off y
      ∧ ∀ off' z, off' + z.length ≤ off ∨ off + x.length ≤ off' →
        SegAt b off' z → SegAt (spliced b off y) off' z := by
  obtain ⟨pre, post, rfl, rfl⟩ := h
  have hspliced : ByteCodec.spliced (pre ++ (x ++ post)) pre.length y = pre ++ (y ++ post) := by
    have hdrop : (pre ++ (x ++ post)).drop (pre.length + y.length) = post := by
      rw [hlen, ← List.append_assoc, ← List.length_append, List.drop_left]
    rw [ByteCodec.spliced, List.take_left, hdrop]
  rw [hspliced]
  refine ⟨by simp [hlen], ⟨pre, post, rfl, rfl⟩, fun off' z happart hz => ?_⟩
  have hpre : ∀ mid : Bytes, SegAt (pre ++ (mid ++ post)) 0 pre :=
    fun mid => ⟨[], mid ++ post, rfl, rfl⟩
  have hpost : ∀ mid : Bytes, SegAt (pre ++ (mid ++ post)) (pre.length + mid.length) post :=
    fun mid => ⟨pre ++ mid, [], by simp, by simp⟩
  have hle := hz.le
  simp only [List.length_append] at hle
  rcases happart with hbefore | hbehind
  · have hin : SegAt pre off' z := (hpre x).within (by rwa [Nat.zero_add]) hbefore
    have hout := (hpre y).trans hin
    rwa [Nat.zero_add] at hout
  · obtain ⟨gap, rfl⟩ := Nat.exists_eq_add_of_le hbehind
    have hin : SegAt post gap z := (hpost x).within hz (by omega)
    have hout := (hpost y).trans hin
    rwa [hlen] at hout

-- ================================================ bounds-checked slices

/-- `bytes.get(start..stop)`. -/
def slice? (b : Bytes) (start stop : Nat) : Option Bytes :=
  if start ≤ stop ∧ stop ≤ b.length then some ((b.drop start).take (stop - start)) else none

theorem slice?_eq_some_iff {b x : Bytes} {start stop : Nat} :
    slice? b start stop = some x ↔ SegAt b start x ∧ stop = start + x.length := by
  unfold slice?
  constructor
  · intro h
    split at h
    case isFalse => cases h
    case isTrue hb =>
      injection h with h
      subst h
      have hlen : ((b.drop start).take (stop - start)).length = stop - start := by
        rw [List.length_take, List.length_drop]
        omega
      refine ⟨⟨b.take start, (b.drop start).drop (stop - start), ?_, ?_⟩, by omega⟩
      · rw [List.take_append_drop, List.take_append_drop]
      · rw [List.length_take]
        omega
  · rintro ⟨hseg, rfl⟩
    have hle := hseg.le
    rw [if_pos ⟨by omega, hle⟩]
    obtain ⟨pre, post, rfl, rfl⟩ := hseg
    simp

/-- `vec.resize(n, 0)`. -/
def resizeZero (b : Bytes) (n : Nat) : Bytes := b.take n ++ List.replicate (n - b.length) 0

theorem resizeZero_of_le {b : Bytes} {n : Nat} (h : b.length ≤ n) :
    resizeZero b n = b ++ List.replicate (n - b.length) 0 := by
  rw [resizeZero, List.take_of_length_le h]

theorem length_resizeZero (b : Bytes) (n : Nat) : (resizeZero b n).length = n := by
  simp only [resizeZero, List.length_append, List.length_take, List.length_replicate]
  omega

-- ================================================ text as UTF-8

/-- `s.as_bytes()`. -/
def utf8 (s : String) : Bytes := s.toByteArray.data.toList

theorem utf8_append (s t : String) : utf8 (s ++ t) = utf8 s ++ utf8 t := by
  simp [utf8]

/-- `String::from_utf8(bytes).ok()`. -/
def fromUtf8 (b : Bytes) : Option String := String.fromUTF8? ⟨b.toArray⟩

@[simp] theorem fromUtf8_utf8 (s : String) : fromUtf8 (utf8 s) = some s := by
  have hb : (⟨(utf8 s).toArray⟩ : ByteArray) = s.toByteArray := by simp [utf8]
  have hv : s.toByteArray.IsValidUTF8 := s.isValidUTF8
  rw [fromUtf8, hb, String.fromUTF8?, dif_pos hv]
  rfl

theorem utf8_of_fromUtf8 {b : Bytes} {s : String} (h : fromUtf8 b = some s) : utf8 s = b := by
  unfold fromUtf8 String.fromUTF8? at h
  split at h
  case isTrue hv =>
    injection h with h
    rw [← h, utf8]
    rfl
  case isFalse => cases h

theorem utf8_inj {s t : String} (h : utf8 s = utf8 t) : s = t := by
  have hs := fromUtf8_utf8 s
  rw [h, fromUtf8_utf8, Option.some.injEq] at hs
  exact hs.symm

/-- A byte string behind its length is cut off in one way. -/
theorem framed_inj {n n' : UInt32} {x x' rest rest' : Bytes} (hn : n.toNat = x.length)
    (hn' : n'.toNat = x'.length) (h : leU32 n ++ (x ++ rest) = leU32 n' ++ (x' ++ rest')) :
    x = x' ∧ rest = rest' := by
  obtain ⟨hlen, htail⟩ := leU32_append_inj h
  exact List.append_inj htail (by rw [← hn, ← hn', hlen])

end ByteCodec
