/-
Item ids as users type them, and what the two hexadecimal decoders take.

# One grammar

`hex_decode` walks the bytes of a text two by two; `hex_decode_id` cuts it at
byte positions. Both hand each pair to the integer parser of the standard
library. On characters they are one function (`readHexPairs`,
`hexDecode_eq_ok`, `hexDecodeId_eq_ok`): a character of several bytes is in no
pair that is read.

# Signs

The integer parser takes a plus before a digit, and so do the decoders
(`exists_readHexPairs_iff`). A text of pairs some of which are signed is
decoded, though it is no hexadecimal text; on every other the decoders are
exact (`hexDecode_exact_iff`).
-/
import MeissnerSeal.Keys.IdentityText
import MeissnerSeal.Lib.Utf8Text

namespace MeissnerSeal

open ByteCodec ExceptRules TextLines

-- =============================================================== item ids

/-- `hex_id`. -/
def hexId (id : U8Array 16) : String := hexBytes id.toList

/-- The loop of `hex_decode_id` over the last `n` slots, from slot `i` on. -/
def hexDecodeIdSlots (s : String) : (n i : Nat) → Res (U8Array n)
  | 0, _ => .ok .nil
  | n + 1, i => do
      let start ← okOr (checkedMul i 2) (.invalidState "item id offset overflow")
      let stop ← okOr (checkedAdd start 2) (.invalidState "item id offset overflow")
      let pair ← okOr (strGet s start stop) (.invalidState "item id truncated")
      let byte ← okOr (fromStrRadix 16 (2 ^ 8) pair.toList)
        (.invalidState "item id contains non-hex characters")
      let rest ← hexDecodeIdSlots s n (i + 1)
      return .cons (UInt8.ofNat byte) rest

/-- `hex_decode_id`. -/
def hexDecodeId (s : String) : Res (U8Array 16) := do
  rejectIf ((utf8 s).length ≠ 32) (.invalidState "item id must be 32 hexadecimal characters")
  hexDecodeIdSlots s 16 0

-- ========================================================== on characters

/-- A text read in pairs, each as a byte. -/
def readHexPairs : List Char → Option Bytes
  | [] => some []
  | [_] => none
  | c :: d :: rest => do
      let byte ← fromStrRadix 16 (2 ^ 8) [c, d]
      let out ← readHexPairs rest
      return UInt8.ofNat byte :: out

theorem readHexPairs_cons_eq_some {c d : Char} {rest : List Char} {out : Bytes} :
    readHexPairs (c :: d :: rest) = some out
      ↔ ∃ byte tail, fromStrRadix 16 (2 ^ 8) [c, d] = some byte ∧ readHexPairs rest = some tail
        ∧ out = UInt8.ofNat byte :: tail := by
  simp only [readHexPairs, Option.bind_eq_bind, Option.bind_eq_some_iff, Option.pure_def,
    Option.some.injEq]
  constructor
  · rintro ⟨byte, hbyte, tail, htail, rfl⟩
    exact ⟨byte, tail, hbyte, htail, rfl⟩
  · rintro ⟨byte, tail, hbyte, htail, rfl⟩
    exact ⟨byte, hbyte, tail, htail, rfl⟩

/-- A pair that is read is ASCII. -/
theorem ascii_of_pair {c d : Char} {byte : Nat} (h : fromStrRadix 16 (2 ^ 8) [c, d] = some byte) :
    c.toNat < 128 ∧ d.toNat < 128 := by
  rcases (fromStrRadix_pair (by decide)).mp h with ⟨rfl, hd⟩ | ⟨-, high, low, hc, hd, -⟩
  · exact ⟨by decide, ascii_of_charToDigit hd⟩
  · exact ⟨ascii_of_charToDigit hc, ascii_of_charToDigit hd⟩

/-- Two bytes that are read are two characters: one of two
bytes is no digit. -/
theorem exists_pair_of_bytes {a b : UInt8} {hex : String} {byte : Nat}
    (hhex : fromUtf8 [a, b] = some hex) (hbyte : fromStrRadix 16 (2 ^ 8) hex.toList = some byte) :
    ∃ c d, fromStrRadix 16 (2 ^ 8) [c, d] = some byte ∧ String.utf8EncodeChar c = [a]
      ∧ String.utf8EncodeChar d = [b] := by
  have hbytes := utf8_of_fromUtf8 hhex
  obtain ⟨cs, rfl⟩ : ∃ cs, hex = String.ofList cs := ⟨hex.toList, String.ofList_toList.symm⟩
  rw [String.toList_ofList] at hbyte
  match cs with
  | [] => cases hbyte
  | [c] =>
      have hc := ascii_of_charToDigit (fromStrRadix_singleton (by decide) hbyte)
      rw [utf8_ofList_cons, utf8EncodeChar_of_ascii hc] at hbytes
      cases hbytes
  | [c, d] =>
      obtain ⟨hc, hd⟩ := ascii_of_pair hbyte
      rw [utf8_ofList_cons, utf8_ofList_cons, utf8EncodeChar_of_ascii hc,
        utf8EncodeChar_of_ascii hd]
        at hbytes
      obtain ⟨ha, hrest⟩ := List.cons.inj hbytes
      obtain ⟨hb, -⟩ := List.cons.inj hrest
      refine ⟨c, d, hbyte, ?_, ?_⟩
      · rw [utf8EncodeChar_of_ascii hc, ha]
      · rw [utf8EncodeChar_of_ascii hd, hb]
  | c :: d :: e :: rest =>
      have hlen := congrArg List.length hbytes
      have hc := c.utf8Size_pos
      have hd := d.utf8Size_pos
      have he := e.utf8Size_pos
      simp only [utf8_ofList_cons, List.length_append, String.length_utf8EncodeChar,
        List.length_cons, List.length_nil] at hlen
      omega

/-- What `hex_decode`'s loop takes begins with a pair, or is at its end. -/
theorem hexDecodePairs_eq_ok {bytes out : Bytes} (heven : bytes.length % 2 = 0) :
    hexDecodePairs bytes = .ok out
      ↔ (bytes = [] ∧ out = [])
        ∨ ∃ c d byte rest tail,
          bytes = String.utf8EncodeChar c ++ (String.utf8EncodeChar d ++ rest)
          ∧ fromStrRadix 16 (2 ^ 8) [c, d] = some byte ∧ hexDecodePairs rest = .ok tail
          ∧ out = UInt8.ofNat byte :: tail := by
  match bytes with
  | [] =>
      constructor
      · intro h
        exact .inl ⟨rfl, (Except.ok.inj h).symm⟩
      · rintro (⟨-, rfl⟩ | ⟨c, d, byte, rest, tail, hbytes, -⟩)
        · rfl
        · exact absurd (List.append_eq_nil_iff.mp hbytes.symm).1 String.utf8EncodeChar_ne_nil
  | [a] => exact absurd heven (by simp)
  | a :: b :: rest =>
      constructor
      · intro h
        simp only [hexDecodePairs, bind_eq_ok, okOr_eq_ok, pure_eq_ok, Except.ok.injEq] at h
        obtain ⟨hex, hhex, byte, hbyte, tail, htail, rfl⟩ := h
        obtain ⟨c, d, hpair, hc, hd⟩ := exists_pair_of_bytes hhex hbyte
        refine .inr ⟨c, d, byte, rest, tail, ?_, hpair, htail, rfl⟩
        rw [hc, hd, List.singleton_append, List.singleton_append]
      · rintro (⟨hnil, -⟩ | ⟨c, d, byte, rest', tail, hbytes, hbyte, htail, rfl⟩)
        · cases hnil
        · obtain ⟨hc, hd⟩ := ascii_of_pair hbyte
          have hpair : utf8 (String.ofList [c, d])
            = [UInt8.ofNat c.toNat, UInt8.ofNat d.toNat] := by
            rw [utf8_ofList_cons, utf8_ofList_cons, utf8EncodeChar_of_ascii hc,
              utf8EncodeChar_of_ascii hd]
            rfl
          rw [utf8EncodeChar_of_ascii hc, utf8EncodeChar_of_ascii hd, List.singleton_append,
            List.singleton_append, List.cons.injEq, List.cons.injEq] at hbytes
          obtain ⟨rfl, rfl, rfl⟩ := hbytes
          rw [hexDecodePairs, ← hpair, fromUtf8_utf8, okOr_some, ok_bind,
            String.toList_ofList, hbyte, okOr_some, ok_bind, htail, ok_bind]
          rfl

/-- Bytes that are read are ASCII, two to each byte read. -/
theorem ascii_of_hexDecodePairs {bytes out : Bytes} (heven : bytes.length % 2 = 0)
    (h : hexDecodePairs bytes = .ok out) :
    bytes.length = 2 * out.length ∧ ∀ b ∈ bytes, b < 0x80 := by
  induction out generalizing bytes with
  | nil =>
      rcases (hexDecodePairs_eq_ok heven).mp h with
        ⟨rfl, -⟩ | ⟨c, d, byte, rest, tail, -, -, -, hout⟩
      · exact ⟨rfl, fun b hb => absurd hb List.not_mem_nil⟩
      · cases hout
  | cons x out ih =>
      rcases (hexDecodePairs_eq_ok heven).mp h with
        ⟨-, hout⟩ | ⟨c, d, byte, rest, tail, hbytes, hbyte, hrest, hout⟩
      · cases hout
      · obtain ⟨-, rfl⟩ := List.cons.inj hout
        obtain ⟨hc, hd⟩ := ascii_of_pair hbyte
        rw [utf8EncodeChar_of_ascii hc, utf8EncodeChar_of_ascii hd, List.singleton_append,
          List.singleton_append] at hbytes
        rw [hbytes, List.length_cons, List.length_cons] at heven
        obtain ⟨hlen, hascii⟩ := ih (by omega) hrest
        rw [hbytes]
        constructor
        · rw [List.length_cons, List.length_cons, List.length_cons]
          omega
        · intro b hb
          have hbyteLt : ∀ {c : Char}, c.toNat < 128 → UInt8.ofNat c.toNat < 0x80 := by
            intro c hc
            rw [UInt8.lt_iff_toNat_lt, UInt8.toNat_ofNat', Nat.mod_eq_of_lt (by omega)]
            exact hc
          rw [List.mem_cons, List.mem_cons] at hb
          rcases hb with rfl | rfl | hb
          · exact hbyteLt hc
          · exact hbyteLt hd
          · exact hascii b hb

theorem readHexPairs_eq_some (cs : List Char) (out : Bytes) :
    readHexPairs cs = some out
      ↔ (utf8 (String.ofList cs)).length % 2 = 0
        ∧ hexDecodePairs (utf8 (String.ofList cs)) = .ok out := by
  induction cs using readHexPairs.induct generalizing out with
  | case1 =>
      constructor
      · intro h
        obtain rfl := Option.some.inj h
        exact ⟨rfl, rfl⟩
      · rintro ⟨-, h⟩
        exact congrArg some (Except.ok.inj h)
  | case2 c =>
      refine iff_of_false (fun h => nomatch h) ?_
      rintro ⟨heven, h⟩
      rcases (hexDecodePairs_eq_ok heven).mp h with ⟨hnil, -⟩ | ⟨c', d', byte, rest, tail,
        hbytes, hbyte, -⟩
      · rw [utf8_ofList_cons] at hnil
        exact String.utf8EncodeChar_ne_nil (List.append_eq_nil_iff.mp hnil).1
      · obtain ⟨-, hrest⟩ := utf8_cons_of_ascii (ascii_of_pair hbyte).1 hbytes
        exact String.utf8EncodeChar_ne_nil (List.append_eq_nil_iff.mp hrest.symm).1
  | case3 c d rest ih =>
      rw [readHexPairs_cons_eq_some]
      constructor
      · rintro ⟨byte, tail, hbyte, htail, rfl⟩
        obtain ⟨heven, hrest⟩ := (ih tail).mp htail
        obtain ⟨hc, hd⟩ := ascii_of_pair hbyte
        have hlen : (utf8 (String.ofList (c :: d :: rest))).length % 2 = 0 := by
          rw [utf8_ofList_cons, utf8_ofList_cons, utf8EncodeChar_of_ascii hc,
            utf8EncodeChar_of_ascii hd, List.length_append, List.length_append,
            List.length_singleton, List.length_singleton]
          omega
        refine ⟨hlen, (hexDecodePairs_eq_ok hlen).mpr
          (.inr ⟨c, d, byte, _, tail, ?_, hbyte, hrest, rfl⟩)⟩
        rw [utf8_ofList_cons, utf8_ofList_cons]
      · rintro ⟨heven, h⟩
        rcases (hexDecodePairs_eq_ok heven).mp h with
          ⟨hnil, -⟩ | ⟨c', d', byte, rest', tail, hbytes, hbyte, htail, rfl⟩
        · rw [utf8_ofList_cons] at hnil
          exact absurd (List.append_eq_nil_iff.mp hnil).1 String.utf8EncodeChar_ne_nil
        · obtain ⟨hc, hd⟩ := ascii_of_pair hbyte
          obtain ⟨rfl, hafter⟩ := utf8_cons_of_ascii hc hbytes
          obtain ⟨rfl, rfl⟩ := utf8_cons_of_ascii hd hafter
          refine ⟨byte, tail, hbyte, (ih tail).mpr ⟨?_, htail⟩, rfl⟩
          rw [hbytes, utf8EncodeChar_of_ascii hc, utf8EncodeChar_of_ascii hd, List.length_append,
            List.length_append, List.length_singleton, List.length_singleton] at heven
          omega

/-- `hex_decode` on characters. -/
theorem hexDecode_eq_ok {value : String} {out : Bytes} :
    hexDecode value = .ok out ↔ readHexPairs value.toList = some out := by
  rw [readHexPairs_eq_some, String.ofList_toList]
  simp only [hexDecode, bind_eq_ok, rejectIf_eq_ok, Decidable.not_not]
  constructor
  · rintro ⟨-, heven, h⟩
    exact ⟨heven, h⟩
  · rintro ⟨heven, h⟩
    exact ⟨(), heven, h⟩

/-- The loop of `hex_decode_id` takes what that of `hex_decode` takes. -/
theorem hexDecodeIdSlots_eq_ok {s : String} (hlen : (utf8 s).length = 32) {n i : Nat}
    (hsum : i + n = 16) {id : U8Array n} :
    hexDecodeIdSlots s n i = .ok id ↔ hexDecodePairs ((utf8 s).drop (2 * i)) = .ok id.toList := by
  induction n generalizing i with
  | zero =>
      have hend : (utf8 s).drop (2 * i) = [] := List.drop_eq_nil_of_le (by omega)
      rw [hend]
      exact iff_of_true (congrArg Except.ok (Subsingleton.elim _ _))
        (congrArg Except.ok (List.length_eq_zero_iff.mp id.toList_length).symm)
  | succ n ih =>
      have hmax : 32 ≤ usizeMax := by decide
      obtain ⟨a, b, hab⟩ : ∃ a b, (utf8 s).drop (2 * i) = a :: b :: (utf8 s).drop (2 * (i + 1)) :=
        ⟨(utf8 s)[2 * i], (utf8 s)[2 * i + 1], by
          rw [List.drop_eq_getElem_cons (by omega), List.drop_eq_getElem_cons (by omega)]
          rfl⟩
      have hpair : ((utf8 s).drop (i * 2)).take (i * 2 + 2 - i * 2) = [a, b] := by
        rw [Nat.mul_comm i 2, hab, Nat.add_sub_cancel_left]
        rfl
      constructor
      · intro h
        simp only [hexDecodeIdSlots, bind_eq_ok, okOr_eq_ok, checkedMul_eq_some, checkedAdd_eq_some,
          pure_eq_ok, Except.ok.injEq] at h
        obtain ⟨_, ⟨rfl, -⟩, _, ⟨rfl, -⟩, pair, hget, byte, hbyte, rest, hrest, rfl⟩ := h
        have hhex := fromUtf8_of_strGet hget
        rw [hpair] at hhex
        rw [hab, hexDecodePairs, hhex, okOr_some, ok_bind, hbyte, okOr_some, ok_bind,
          (ih (by omega)).mp hrest, ok_bind, List.Vector.toList_cons]
        rfl
      · intro h
        have heven : ((utf8 s).drop (2 * i)).length % 2 = 0 := by
          rw [List.length_drop]
          omega
        have hascii := (ascii_of_hexDecodePairs heven h).2
        rw [Nat.mul_comm 2 i] at hascii
        have hget := strGet_of_ascii (Nat.le_add_right (i * 2) 2) (by omega) hascii
        obtain ⟨x, rest, rfl⟩ := id.exists_eq_cons
        rw [hab, List.Vector.toList_cons] at h
        simp only [hexDecodePairs, bind_eq_ok, okOr_eq_ok, pure_eq_ok, Except.ok.injEq,
          List.cons.injEq] at h
        obtain ⟨hex, hhex, byte, hbyte, tail, htail, rfl, rfl⟩ := h
        rw [hpair, hhex] at hget
        simp only [hexDecodeIdSlots, bind_eq_ok, okOr_eq_ok, checkedMul_eq_some, checkedAdd_eq_some,
          pure_eq_ok, Except.ok.injEq]
        exact ⟨_, ⟨rfl, by omega⟩, _, ⟨rfl, by omega⟩, hex, hget, byte, hbyte, rest,
          (ih (by omega)).mpr htail, rfl⟩

/-- `hex_decode_id` on characters. -/
theorem hexDecodeId_eq_ok {s : String} {id : U8Array 16} :
    hexDecodeId s = .ok id ↔ readHexPairs s.toList = some id.toList := by
  rw [readHexPairs_eq_some, String.ofList_toList]
  simp only [hexDecodeId, bind_eq_ok, rejectIf_eq_ok, Decidable.not_not]
  constructor
  · rintro ⟨-, hlen, h⟩
    exact ⟨by omega, (hexDecodeIdSlots_eq_ok hlen rfl).mp h⟩
  · rintro ⟨heven, h⟩
    have hlen : (utf8 s).length = 32 := by
      rw [(ascii_of_hexDecodePairs heven h).1, id.toList_length]
    exact ⟨(), hlen, (hexDecodeIdSlots_eq_ok hlen rfl).mpr h⟩

-- ================================================================ grammar

/-- `[0-9a-fA-F]`. -/
def IsHexDigit (c : Char) : Prop :=
  ('0' ≤ c ∧ c ≤ '9') ∨ ('a' ≤ c ∧ c ≤ 'f') ∨ ('A' ≤ c ∧ c ≤ 'F')

instance : DecidablePred IsHexDigit := fun c =>
  inferInstanceAs (Decidable (('0' ≤ c ∧ c ≤ '9') ∨ ('a' ≤ c ∧ c ≤ 'f') ∨ ('A' ≤ c ∧ c ≤ 'F')))

/-- Hexadecimal digits, an even number of them. -/
def IsHex (s : String) : Prop := s.toList.length % 2 = 0 ∧ ∀ c ∈ s.toList, IsHexDigit c

/-- Pairs of a digit or a plus, and a digit. -/
def HexPairs : List Char → Prop
  | [] => True
  | [_] => False
  | c :: d :: rest => (c = '+' ∨ IsHexDigit c) ∧ IsHexDigit d ∧ HexPairs rest

/-- A text of such pairs, one of them with a plus. -/
def SignedHex (s : String) : Prop := HexPairs s.toList ∧ '+' ∈ s.toList

theorem IsHexDigit.ascii {c : Char} (h : IsHexDigit c) : c.toNat < 128 := by
  have hle : ∀ {last : Char}, last.toNat < 128 → c ≤ last → c.toNat < 128 :=
    fun hlast hc => Nat.lt_of_le_of_lt (UInt32.le_iff_toNat_le.mp hc) hlast
  rcases h with ⟨-, h⟩ | ⟨-, h⟩ | ⟨-, h⟩
  · exact hle (by decide) h
  · exact hle (by decide) h
  · exact hle (by decide) h

/-- The parser's digits of radix 16 are these. -/
theorem isHexDigit_iff {c : Char} : IsHexDigit c ↔ ∃ n, charToDigit 16 c = some n := by
  have hall : ∀ k < 128, IsHexDigit (Char.ofNat k)
    ↔ (charToDigit 16 (Char.ofNat k)).isSome = true := by
    decide
  rw [← Option.isSome_iff_exists]
  constructor
  · intro h
    have hc := hall c.toNat h.ascii
    rw [Char.ofNat_toNat] at hc
    exact hc.mp h
  · intro h
    obtain ⟨n, hn⟩ := Option.isSome_iff_exists.mp h
    have hc := hall c.toNat (ascii_of_charToDigit hn)
    rw [Char.ofNat_toNat] at hc
    exact hc.mpr h

/-- A digit is written back in lower case. -/
theorem hexDigit_of_charToDigit {c : Char} {n : Nat} (h : charToDigit 16 c = some n) :
    hexDigit n = c.toLower := by
  have hall : ∀ k < 128, ∀ n < 16, charToDigit 16 (Char.ofNat k) = some n →
      hexDigit n = (Char.ofNat k).toLower := by decide
  have hc := hall c.toNat (ascii_of_charToDigit h) n (charToDigit_lt h)
  rw [Char.ofNat_toNat] at hc
  exact hc h

/-- What is read is made of pairs. -/
theorem exists_readHexPairs_iff {cs : List Char} :
    (∃ out, readHexPairs cs = some out) ↔ HexPairs cs := by
  induction cs using readHexPairs.induct with
  | case1 => exact iff_of_true ⟨[], rfl⟩ trivial
  | case2 c => exact iff_of_false (fun ⟨out, h⟩ => nomatch h) id
  | case3 c d rest ih =>
      simp only [readHexPairs_cons_eq_some, HexPairs, ← ih, isHexDigit_iff]
      constructor
      · rintro ⟨out, byte, tail, hbyte, htail, -⟩
        rcases (fromStrRadix_pair (by decide)).mp hbyte with ⟨hplus, hd⟩ | ⟨-, high, low, hc, hd, -⟩
        · exact ⟨.inl hplus, ⟨byte, hd⟩, tail, htail⟩
        · exact ⟨.inr ⟨high, hc⟩, ⟨low, hd⟩, tail, htail⟩
      · rintro ⟨hc, ⟨low, hd⟩, tail, htail⟩
        by_cases hplus : c = '+'
        · exact ⟨_, low, tail, (fromStrRadix_pair (by decide)).mpr (.inl ⟨hplus, hd⟩), htail, rfl⟩
        · obtain ⟨high, hc⟩ := hc.resolve_left hplus
          exact ⟨_, _, tail, (fromStrRadix_pair (by decide)).mpr
            (.inr ⟨hplus, high, low, hc, hd, rfl⟩), htail, rfl⟩

/-- Pairs without a plus are an even number of digits. -/
theorem isHex_iff {s : String} : IsHex s ↔ HexPairs s.toList ∧ '+' ∉ s.toList := by
  have hnoplus : ¬ IsHexDigit '+' := by decide
  unfold IsHex
  induction s.toList using readHexPairs.induct with
  | case1 => simp [HexPairs]
  | case2 c => simp [HexPairs]
  | case3 c d rest ih =>
      simp only [HexPairs, List.length_cons, List.mem_cons, not_or, forall_eq_or_imp]
      constructor
      · rintro ⟨heven, hc, hd, hrest⟩
        obtain ⟨hpairs, hplus⟩ := ih.mp ⟨by omega, hrest⟩
        exact ⟨⟨.inr hc, hd, hpairs⟩, (fun h => hnoplus (h ▸ hc)),
          (fun h => hnoplus (h ▸ hd)), hplus⟩
      · rintro ⟨⟨hc, hd, hpairs⟩, hcplus, -, hplus⟩
        obtain ⟨heven, hrest⟩ := ih.mpr ⟨hpairs, hplus⟩
        exact ⟨by omega, hc.resolve_left (Ne.symm hcplus), hd, hrest⟩

/-- Unsigned pairs are written back in lower case. -/
theorem hexEncode_of_readHexPairs {cs : List Char} {out : Bytes} (h : readHexPairs cs = some out)
    (hplus : '+' ∉ cs) : (hexEncode out).toList = cs.map Char.toLower := by
  induction cs using readHexPairs.induct generalizing out with
  | case1 =>
      obtain rfl := Option.some.inj h
      rfl
  | case2 c => cases h
  | case3 c d rest ih =>
      rw [List.mem_cons, List.mem_cons, not_or, not_or] at hplus
      obtain ⟨hc, -, hrest⟩ := hplus
      obtain ⟨byte, tail, hbyte, htail, rfl⟩ := readHexPairs_cons_eq_some.mp h
      rcases (fromStrRadix_pair (by decide)).mp hbyte with
        ⟨hplus, -⟩ | ⟨-, high, low, hhigh, hlow, rfl⟩
      · exact absurd hplus.symm hc
      · have hhighLt := charToDigit_lt hhigh
        have hlowLt := charToDigit_lt hlow
        have hvalue : (UInt8.ofNat (high * 16 + low)).toNat = high * 16 + low := by
          rw [UInt8.toNat_ofNat', Nat.mod_eq_of_lt (by omega)]
        have hdiv : (high * 16 + low) / 16 = high := by omega
        have hmod : (high * 16 + low) % 16 = low := by omega
        rw [hexEncode_cons, String.toList_append, String.toList_ofList, hexByte, hvalue, hdiv, hmod,
          hexDigit_of_charToDigit hhigh, hexDigit_of_charToDigit hlow, ih htail hrest]
        rfl

-- ============================================================== exactness

theorem length_of_readHexPairs {cs : List Char} {out : Bytes} (h : readHexPairs cs = some out) :
    cs.length = 2 * out.length := by
  induction cs using readHexPairs.induct generalizing out with
  | case1 =>
      obtain rfl := Option.some.inj h
      rfl
  | case2 c => cases h
  | case3 c d rest ih =>
      obtain ⟨byte, tail, -, htail, rfl⟩ := readHexPairs_cons_eq_some.mp h
      rw [List.length_cons, List.length_cons, List.length_cons, ih htail]
      omega

theorem exists_hexDecode_iff {s : String} : (∃ bytes, hexDecode s = .ok bytes)
    ↔ HexPairs s.toList := by
  simp only [hexDecode_eq_ok, exists_readHexPairs_iff]

theorem exists_hexDecodeId_iff {s : String} :
    (∃ id, hexDecodeId s = .ok id) ↔ HexPairs s.toList ∧ s.length = 32 := by
  rw [← exists_readHexPairs_iff, ← String.length_toList]
  simp only [hexDecodeId_eq_ok]
  constructor
  · rintro ⟨id, h⟩
    exact ⟨⟨_, h⟩, by rw [length_of_readHexPairs h, id.toList_length]⟩
  · rintro ⟨⟨out, h⟩, hlen⟩
    have hout : out.length = 16 := by
      rw [length_of_readHexPairs h] at hlen
      omega
    exact ⟨⟨out, hout⟩, h⟩

/-- `hex_decode` on a text: taken if it is hexadecimal, and only then, as
bytes that are written as the text in lower case. -/
def HexDecodeExact (s : String) : Prop :=
  ((∃ bytes, hexDecode s = .ok bytes) ↔ IsHex s)
    ∧ (IsHex s → ∀ bytes, hexDecode s = .ok bytes → hexEncode bytes = s.toLower)

/-- `hex_decode_id` on a text, of 32 characters. -/
def HexDecodeIdExact (s : String) : Prop :=
  ((∃ id, hexDecodeId s = .ok id) ↔ IsHex s ∧ s.length = 32)
    ∧ (IsHex s ∧ s.length = 32 → ∀ id, hexDecodeId s = .ok id → hexId id = s.toLower)

/-- The decoders are exact on every text but the signed ones, of these
`hex_decode_id` on those that are not of 32 characters. -/
theorem hexDecode_exact_iff (s : String) :
    (HexDecodeExact s ∧ HexDecodeIdExact s ↔ ¬ SignedHex s)
      ∧ (HexDecodeExact s ↔ ¬ SignedHex s)
      ∧ (HexDecodeIdExact s ↔ ¬ (SignedHex s ∧ s.length = 32)) := by
  have hlower : ∀ out, IsHex s → readHexPairs s.toList = some out → hexEncode out = s.toLower := by
    intro out hhex hread
    apply String.toList_injective
    show (hexEncode out).toList = (s.map Char.toLower).toList
    rw [hexEncode_of_readHexPairs hread (isHex_iff.mp hhex).2, String.toList_map]
  have hbytes : HexDecodeExact s ↔ ¬ SignedHex s := by
    have hwritten : IsHex s → ∀ bytes, hexDecode s = .ok bytes → hexEncode bytes = s.toLower :=
      fun hhex bytes h => hlower bytes hhex (hexDecode_eq_ok.mp h)
    rw [HexDecodeExact, exists_hexDecode_iff, and_iff_left hwritten, isHex_iff, SignedHex]
    tauto
  have hid : HexDecodeIdExact s ↔ ¬ (SignedHex s ∧ s.length = 32) := by
    have hwritten : IsHex s ∧ s.length = 32 → ∀ id, hexDecodeId s = .ok id → hexId id = s.toLower :=
      fun hhex id h => hlower id.toList hhex.1 (hexDecodeId_eq_ok.mp h)
    rw [HexDecodeIdExact, exists_hexDecodeId_iff, and_iff_left hwritten, isHex_iff, SignedHex]
    tauto
  refine ⟨?_, hbytes, hid⟩
  rw [hbytes, hid]
  exact ⟨fun h => h.1, fun h => ⟨h, fun hsigned => h hsigned.1⟩⟩

/-- Sixteen times a plus and a digit. -/
def signedId : String := "+f+f+f+f+f+f+f+f+f+f+f+f+f+f+f+f"

/-- Both decoders take it for sixteen bytes of 15, for all that they speak of
hexadecimal characters. -/
theorem signedId_decoded :
    hexDecodeId signedId = .ok (List.Vector.replicate 16 15) ∧ ¬ HexDecodeExact signedId
      ∧ ¬ HexDecodeIdExact signedId := by
  have hread : readHexPairs signedId.toList = some (List.replicate 16 15) := by decide
  have hid : hexDecodeId signedId = .ok (List.Vector.replicate 16 15) := hexDecodeId_eq_ok.mpr hread
  have hsigned : ¬ IsHex signedId := fun hhex => (isHex_iff.mp hhex).2 (by decide)
  exact ⟨hid, fun h => hsigned (h.1.mp ⟨_, hexDecode_eq_ok.mpr hread⟩),
    fun h => hsigned (h.1.mp ⟨_, hid⟩).1⟩

/-- An id that is shown is read back. -/
theorem hexDecodeId_hexId (id : U8Array 16) : hexDecodeId (hexId id) = .ok id :=
  hexDecodeId_eq_ok.mpr (hexDecode_eq_ok.mp (hexDecode_hexEncode id.toList))

end MeissnerSeal
