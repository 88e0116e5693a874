/-
Substrings at byte positions, and the characters of one byte.

# Positions

A string is cut at the boundaries of its characters only; anywhere else there
is no substring (`strGet`).

# ASCII

The first byte of a character tells whether it has others: below `0x80` it is
the character (`ascii_of_utf8EncodeChar`). Bytes below `0x80` are boundaries
wherever they stand (`strGet_of_ascii`).
-/
import MeissnerSeal.Lib.ByteCodec

namespace ByteCodec

-- ============================================================== positions

/-- `s.is_char_boundary(i)`. -/
def isCharBoundary (s : String) (i : Nat) : Bool :=
  match (utf8 s)[i]? with
  | some b => i = 0 || b < 0x80 || 0xc0 ≤ b
  | none => i = (utf8 s).length

/-- `s.get(start..stop)`. -/
def strGet (s : String) (start stop : Nat) : Option String :=
  if start ≤ stop ∧ isCharBoundary s start = true ∧ isCharBoundary s stop = true then
    fromUtf8 (((utf8 s).drop start).take (stop - start))
  else none

/-- A substring has the bytes between its ends. -/
theorem fromUtf8_of_strGet {s t : String} {start stop : Nat} (h : strGet s start stop = some t) :
    fromUtf8 (((utf8 s).drop start).take (stop - start)) = some t := by
  unfold strGet at h
  split at h
  case isTrue => exact h
  case isFalse => cases h

theorem isCharBoundary_of_ascii {s : String} {i : Nat} (hle : i ≤ (utf8 s).length)
    (h : ∀ b ∈ (utf8 s)[i]?, b < 0x80) : isCharBoundary s i = true := by
  unfold isCharBoundary
  split
  case h_1 b hb => simp [h b hb]
  case h_2 hnone =>
    rw [List.getElem?_eq_none_iff] at hnone
    exact decide_eq_true (by omega)

/-- From a position on where all bytes are ASCII, any two positions have
their substring. -/
theorem strGet_of_ascii {s : String} {start stop : Nat} (hle : start ≤ stop)
    (hstop : stop ≤ (utf8 s).length) (h : ∀ b ∈ (utf8 s).drop start, b < 0x80) :
    strGet s start stop = fromUtf8 (((utf8 s).drop start).take (stop - start)) := by
  have hbyte : ∀ i, start ≤ i → i ≤ (utf8 s).length → isCharBoundary s i = true := by
    intro i hi hlen
    refine isCharBoundary_of_ascii hlen fun b hb => h b ?_
    have hat : ((utf8 s).drop start)[i - start]? = some b := by
      rw [List.getElem?_drop, Nat.add_sub_cancel' hi]
      exact hb
    exact List.mem_of_getElem? hat
  rw [strGet, if_pos ⟨hle, hbyte start le_rfl (hle.trans hstop), hbyte stop hle hstop⟩]

-- ============================================================ characters

theorem utf8_ofList_cons (c : Char) (cs : List Char) :
    utf8 (String.ofList (c :: cs)) = String.utf8EncodeChar c ++ utf8 (String.ofList cs) := by
  simp [utf8, String.toByteArray_ofList, List.utf8Encode]

theorem utf8EncodeChar_of_ascii {c : Char} (h : c.toNat < 128) :
    String.utf8EncodeChar c = [UInt8.ofNat c.toNat] := by
  have hsize : c.utf8Size = 1 := by
    rw [Char.utf8Size_eq_one_iff, UInt32.le_iff_toNat_le]
    exact Nat.le_of_lt_succ h
  exact String.utf8EncodeChar_eq_singleton hsize

/-- The first of several bytes is `0xc0` or more. -/
theorem ascii_of_utf8EncodeChar {c : Char} {b : UInt8} {bs : Bytes}
    (h : String.utf8EncodeChar c = b :: bs) (hb : b.toNat < 128) : c.toNat < 128 := by
  by_contra hc
  have hlong : ¬ c.val.toNat ≤ 127 := fun hle => hc (Nat.lt_succ_of_le hle)
  have hlt := c.val.toNat_lt
  unfold String.utf8EncodeChar at h
  simp only [hlong, if_false] at h
  split at h
  case isTrue =>
    obtain ⟨rfl, -⟩ := List.cons.inj h
    rw [UInt8.toNat_ofNat'] at hb
    omega
  case isFalse =>
    split at h
    case isTrue =>
      obtain ⟨rfl, -⟩ := List.cons.inj h
      rw [UInt8.toNat_ofNat'] at hb
      omega
    case isFalse =>
      obtain ⟨rfl, -⟩ := List.cons.inj h
      rw [UInt8.toNat_ofNat'] at hb
      omega

/-- Two ASCII characters with one byte are one. -/
theorem eq_of_ascii {c d : Char} (hc : c.toNat < 128) (hd : d.toNat < 128)
    (h : UInt8.ofNat c.toNat = UInt8.ofNat d.toNat) : c = d := by
  have hnat := congrArg UInt8.toNat h
  rw [UInt8.toNat_ofNat', UInt8.toNat_ofNat', Nat.mod_eq_of_lt (by omega),
    Nat.mod_eq_of_lt (by omega)]
    at hnat
  rw [← Char.ofNat_toNat c, hnat, Char.ofNat_toNat]

/-- A text whose bytes begin as an ASCII character does begins with it. -/
theorem utf8_cons_of_ascii {c d : Char} {cs : List Char} {bs : Bytes} (hd : d.toNat < 128)
    (h : utf8 (String.ofList (c :: cs)) = String.utf8EncodeChar d ++ bs) :
    c = d ∧ utf8 (String.ofList cs) = bs := by
  rw [utf8_ofList_cons, utf8EncodeChar_of_ascii hd] at h
  obtain ⟨b, tail, hfirst⟩ := List.exists_cons_of_ne_nil (@String.utf8EncodeChar_ne_nil c)
  rw [hfirst] at h
  obtain ⟨hb, -⟩ := List.cons.inj h
  have hc : c.toNat < 128 := by
    refine ascii_of_utf8EncodeChar hfirst ?_
    rw [hb, UInt8.toNat_ofNat', Nat.mod_eq_of_lt (by omega)]
    exact hd
  rw [← hfirst, utf8EncodeChar_of_ascii hc] at h
  obtain ⟨hsame, hrest⟩ := List.cons.inj h
  exact ⟨eq_of_ascii hc hd hsame, hrest⟩

-- ============================================================== line feeds

/-- A byte below `0x80` stands for its own character. -/
theorem ascii_of_mem_utf8EncodeChar {c : Char} {b : UInt8} (h : b ∈ String.utf8EncodeChar c)
    (hb : b.toNat < 128) : c.toNat < 128 := by
  by_contra hc
  have hlong : ¬ c.val.toNat ≤ 127 := fun hle => hc (Nat.lt_succ_of_le hle)
  have hlt := c.val.toNat_lt
  unfold String.utf8EncodeChar at h
  simp only [hlong, if_false] at h
  split at h
  case isTrue =>
    simp only [List.mem_cons, List.not_mem_nil, or_false] at h
    rcases h with rfl | rfl <;> rw [UInt8.toNat_ofNat'] at hb <;> omega
  case isFalse =>
    split at h
    case isTrue =>
      simp only [List.mem_cons, List.not_mem_nil, or_false] at h
      rcases h with rfl | rfl | rfl <;> rw [UInt8.toNat_ofNat'] at hb <;> omega
    case isFalse =>
      simp only [List.mem_cons, List.not_mem_nil, or_false] at h
      rcases h with rfl | rfl | rfl | rfl <;> rw [UInt8.toNat_ofNat'] at hb <;> omega

theorem eq_newline_of_mem {c : Char} (h : (0x0a : UInt8) ∈ String.utf8EncodeChar c) : c = '\n' := by
  have hc := ascii_of_mem_utf8EncodeChar h (by decide)
  rw [utf8EncodeChar_of_ascii hc, List.mem_singleton] at h
  exact eq_of_ascii hc (by decide) h.symm

/-- A text without line feeds has no byte of one. -/
theorem newline_notMem_utf8 {cs : List Char} (h : '\n' ∉ cs) :
    (0x0a : UInt8) ∉ utf8 (String.ofList cs) := by
  induction cs with
  | nil => exact List.not_mem_nil
  | cons c cs ih =>
      rw [utf8_ofList_cons, List.mem_append, not_or]
      rw [List.mem_cons, not_or] at h
      exact ⟨fun hmem => h.1 (eq_newline_of_mem hmem).symm, ih h.2⟩

end ByteCodec
