/-
Text of lines and of `key=value` pairs, and the numerals in it.

# Lines

A line ends with a line feed, and a carriage return right before it is
part of the end (`lines`). Whatever ends with a line feed splits off
(`lines_append_newline`).

# Numerals

`fromStrRadix` takes a leading plus and either case. What the standard
library writes in that radix it reads back (`fromStrRadix_toDigits`). Of two
characters it takes two digits, or a plus and a digit (`fromStrRadix_pair`).
-/
import Mathlib.Data.List.Basic

namespace TextLines

-- ================================================================== lines

/-- `text.split_inclusive('\n')`. -/
def splitInclusive : List Char → List (List Char)
  | [] => []
  | c :: cs =>
      if c = '\n' then [c] :: splitInclusive cs
      else
        match splitInclusive cs with
        | [] => [[c]]
        | line :: rest => (c :: line) :: rest

/-- `line.strip_suffix(c)`. -/
def stripSuffix (c : Char) (line : List Char) : Option (List Char) :=
  if line.getLast? = some c then some line.dropLast else none

/-- A line without the carriage return at its end. -/
def stripCr (line : List Char) : List Char := (stripSuffix '\r' line).getD line

/-- A line without its end. -/
def stripLineEnd (line : List Char) : List Char :=
  match stripSuffix '\n' line with
  | none => line
  | some line => stripCr line

/-- `text.lines()`. -/
def lines (text : String) : List String :=
  (splitInclusive text.toList).map fun line => String.ofList (stripLineEnd line)

theorem splitInclusive_cons_ne_nil (c : Char) (cs : List Char) : splitInclusive (c :: cs) ≠ [] := by
  unfold splitInclusive
  by_cases hc : c = '\n'
  · rw [if_pos hc]
    exact List.cons_ne_nil _ _
  · rw [if_neg hc]
    cases splitInclusive cs with
    | nil => exact List.cons_ne_nil _ _
    | cons line rest => exact List.cons_ne_nil _ _

theorem splitInclusive_append_newline (cs rest : List Char) :
    splitInclusive (cs ++ '\n' :: rest) = splitInclusive (cs ++ ['\n']) ++ splitInclusive rest := by
  induction cs with
  | nil => rfl
  | cons c cs ih =>
      simp only [List.cons_append, splitInclusive]
      by_cases hc : c = '\n'
      · rw [if_pos hc, if_pos hc, ih, List.cons_append]
      · rw [if_neg hc, if_neg hc, ih]
        -- the text before the line feed has a first line
        cases hfirst : splitInclusive (cs ++ ['\n']) with
        | nil =>
            cases cs with
            | nil => exact absurd hfirst (splitInclusive_cons_ne_nil _ _)
            | cons d ds => exact absurd hfirst (splitInclusive_cons_ne_nil _ _)
        | cons line lines => rfl

theorem splitInclusive_line {cs : List Char} (h : '\n' ∉ cs) :
    splitInclusive (cs ++ ['\n']) = [cs ++ ['\n']] := by
  induction cs with
  | nil => rfl
  | cons c cs ih =>
      rw [List.mem_cons, not_or] at h
      obtain ⟨hc, hcs⟩ := h
      rw [List.cons_append, splitInclusive, if_neg (Ne.symm hc), ih hcs]

theorem stripLineEnd_line (cs : List Char) : stripLineEnd (cs ++ ['\n']) = stripCr cs := by
  have hlast : stripSuffix '\n' (cs ++ ['\n']) = some cs := by
    rw [stripSuffix, if_pos List.getLast?_concat, List.dropLast_concat]
  rw [stripLineEnd, hlast]

/-- What ends with a line feed splits off. -/
theorem lines_append_newline (text rest : String) :
    lines (text ++ "\n" ++ rest) = lines (text ++ "\n") ++ lines rest := by
  have hnewline : "\n".toList = ['\n'] := rfl
  simp only [lines, String.toList_append, hnewline]
  rw [List.append_assoc, List.singleton_append, splitInclusive_append_newline, List.map_append]

/-- One line. -/
theorem lines_line {text : String} (h : '\n' ∉ text.toList) :
    lines (text ++ "\n") = [String.ofList (stripCr text.toList)] := by
  have hnewline : "\n".toList = ['\n'] := rfl
  rw [lines, String.toList_append, hnewline, splitInclusive_line h, List.map_singleton,
    stripLineEnd_line]

theorem stripCr_eq_self {cs : List Char} : stripCr cs = cs ↔ cs.getLast? ≠ some '\r' := by
  unfold stripCr stripSuffix
  by_cases h : cs.getLast? = some '\r'
  · rw [if_pos h, Option.getD_some]
    refine iff_of_false (fun hsame => ?_) (fun hne => hne h)
    have hlen := congrArg List.length hsame
    have hne : cs ≠ [] := by
      rintro rfl
      cases h
    rw [List.length_dropLast] at hlen
    have hpos := List.length_pos_of_ne_nil hne
    omega
  · rw [if_neg h]
    exact iff_of_true rfl h

theorem mem_of_mem_stripCr {c : Char} {cs : List Char} (h : c ∈ stripCr cs) : c ∈ cs := by
  unfold stripCr stripSuffix at h
  split at h
  case isTrue => exact List.dropLast_subset cs h
  case isFalse => exact h

/-- The carriage return is that of what stands last. -/
theorem stripCr_append {front : List Char} (h : front.getLast? ≠ some '\r') (back : List Char) :
    stripCr (front ++ back) = front ++ stripCr back := by
  by_cases hback : back = []
  · rw [hback, List.append_nil, stripCr_eq_self.mpr h]
    exact (List.append_nil front).symm
  · unfold stripCr stripSuffix
    rw [List.getLast?_append_of_ne_nil front hback]
    by_cases hcr : back.getLast? = some '\r'
    · rw [if_pos hcr, if_pos hcr, Option.getD_some, Option.getD_some,
        List.dropLast_append_of_ne_nil hback]
    · rw [if_neg hcr, if_neg hcr]
      rfl

-- =============================================================== key=value

/-- `line.split_once(sep)`. -/
def splitOnce (sep : Char) (line : String) : Option (String × String) :=
  if sep ∈ line.toList then
    some (String.ofList (line.toList.takeWhile (· ≠ sep)),
      String.ofList ((line.toList.dropWhile (· ≠ sep)).drop 1))
  else none

/-- The first separator splits. -/
theorem splitOnce_append {sep : Char} {key : String} (h : sep ∉ key.toList) (value : String) :
    splitOnce sep (key ++ String.singleton sep ++ value) = some (key, value) := by
  have hline : (key ++ String.singleton sep ++ value).toList = key.toList
    ++ sep :: value.toList := by
    simp only [String.toList_append, String.toList_singleton, List.append_assoc,
      List.singleton_append]
  have hkey : ∀ c ∈ key.toList, decide (c ≠ sep) = true := by
    intro c hc
    apply decide_eq_true
    rintro rfl
    exact h hc
  rw [splitOnce, hline, if_pos (by simp), List.takeWhile_append_of_pos hkey,
    List.dropWhile_append_of_pos hkey]
  simp

-- ================================================================ numerals

/-- `c.to_digit(radix)`, of a radix to 36. -/
def charToDigit (radix : Nat) (c : Char) : Option Nat :=
  let digit :=
    if '0' ≤ c ∧ c ≤ '9' then c.toNat - '0'.toNat
    else if 'a' ≤ c ∧ c ≤ 'z' then c.toNat - 'a'.toNat + 10
    else if 'A' ≤ c ∧ c ≤ 'Z' then c.toNat - 'A'.toNat + 10
    else radix
  if digit < radix then some digit else none

/-- The digits, the value checked for overflow at each. -/
def readDigits (radix bound : Nat) (digits : List Char) : Option Nat :=
  digits.foldlM (fun value c => do
    let digit ← charToDigit radix c
    if value * radix + digit < bound then some (value * radix + digit) else none) 0

/-- `from_str_radix(src, radix)` of an unsigned type with `bound` values. -/
def fromStrRadix (radix bound : Nat) (src : List Char) : Option Nat :=
  if src = [] ∨ src = ['+'] ∨ src = ['-'] then none
  else readDigits radix bound (if src.head? = some '+' then src.tail else src)

theorem charToDigit_digitChar {radix digit : Nat} (h : digit < radix) (hradix : radix ≤ 16) :
    charToDigit radix digit.digitChar = some digit := by
  have hall : ∀ digit < 16, ∀ radix ≤ 16, digit < radix →
      charToDigit radix digit.digitChar = some digit := by decide
  exact hall digit (by omega) radix hradix h

theorem readDigits_concat (radix bound : Nat) (digits : List Char) (c : Char) :
    readDigits radix bound (digits ++ [c]) = (do
      let value ← readDigits radix bound digits
      let digit ← charToDigit radix c
      if value * radix + digit < bound then some (value * radix + digit) else none) := by
  rw [readDigits, List.foldlM_append]
  simp only [List.foldlM_cons, List.foldlM_nil, bind_pure]
  rfl

/-- Digits written are read back. -/
theorem readDigits_toDigits {radix bound : Nat} (hradix : 1 < radix) (hradix' : radix ≤ 16) :
    ∀ n < bound, readDigits radix bound (Nat.toDigits radix n) = some n := by
  intro n
  induction n using Nat.strongRecOn with
  | ind n ih =>
      intro hn
      rw [Nat.toDigits_eq_if hradix]
      by_cases hsmall : n < radix
      · have hread := readDigits_concat radix bound [] n.digitChar
        rw [List.nil_append] at hread
        rw [if_pos hsmall, hread]
        simp [readDigits, charToDigit_digitChar hsmall hradix', hn]
      · have hlt : n / radix < n := Nat.div_lt_self (by omega) hradix
        have hmod : n % radix < radix := Nat.mod_lt n (by omega)
        have hvalue : n / radix * radix + n % radix = n := Nat.div_add_mod' n radix
        rw [if_neg hsmall, readDigits_concat, ih _ hlt (by omega),
          charToDigit_digitChar hmod hradix']
        simp only [Option.bind_eq_bind, Option.bind_some, hvalue, if_pos hn]

theorem fromStrRadix_of_digits {radix bound : Nat} {src : List Char} (hne : src ≠ [])
    (hsign : ∀ c ∈ src.head?, c ≠ '+' ∧ c ≠ '-') :
    fromStrRadix radix bound src = readDigits radix bound src := by
  cases src with
  | nil => exact absurd rfl hne
  | cons c cs =>
      obtain ⟨hplus, hminus⟩ := hsign c rfl
      rw [fromStrRadix, if_neg, if_neg]
      · intro hhead
        exact hplus (Option.some.inj hhead)
      · rintro (h | h | h)
        · cases h
        · exact hplus (List.cons.inj h).1
        · exact hminus (List.cons.inj h).1

/-- A decimal numeral is read back. -/
theorem fromStrRadix_toDigits {bound n : Nat} (h : n < bound) :
    fromStrRadix 10 bound (Nat.toDigits 10 n) = some n := by
  rw [fromStrRadix_of_digits Nat.toDigits_ne_nil, readDigits_toDigits (by decide) (by decide) n h]
  intro c hc
  have hdigit : c.isDigit = true :=
    Nat.isDigit_of_mem_toDigits (by decide) (by decide) (List.mem_of_mem_head? hc)
  constructor
  · rintro rfl
    exact absurd hdigit (by decide)
  · rintro rfl
    exact absurd hdigit (by decide)

theorem charToDigit_lt {radix digit : Nat} {c : Char} (h : charToDigit radix c = some digit) :
    digit < radix := by
  simp only [charToDigit, Option.ite_none_right_eq_some, Option.some.injEq] at h
  exact h.2 ▸ h.1

/-- Digits are ASCII. -/
theorem ascii_of_charToDigit {radix digit : Nat} {c : Char} (h : charToDigit radix c = some digit) :
    c.toNat < 128 := by
  have hle : ∀ {last : Char}, last.toNat < 128 → c ≤ last → c.toNat < 128 := by
    intro last hlast hc
    exact Nat.lt_of_le_of_lt (UInt32.le_iff_toNat_le.mp hc) hlast
  have hlt := charToDigit_lt h
  unfold charToDigit at h
  by_cases hnine : '0' ≤ c ∧ c ≤ '9'
  · exact hle (by decide) hnine.2
  · by_cases hlower : 'a' ≤ c ∧ c ≤ 'z'
    · exact hle (by decide) hlower.2
    · by_cases hupper : 'A' ≤ c ∧ c ≤ 'Z'
      · exact hle (by decide) hupper.2
      · simp [hnine, hlower, hupper] at h

theorem readDigits_singleton {radix bound : Nat} (hbound : radix ≤ bound) (c : Char) :
    readDigits radix bound [c] = charToDigit radix c := by
  cases hdigit : charToDigit radix c with
  | none => simp [readDigits, hdigit]
  | some digit =>
      have hlt := charToDigit_lt hdigit
      simp [readDigits, hdigit, show digit < bound by omega]

/-- A single character is a digit. -/
theorem fromStrRadix_singleton {radix bound n : Nat} {c : Char} (hbound : radix ≤ bound)
    (h : fromStrRadix radix bound [c] = some n) : charToDigit radix c = some n := by
  have hplus : c ≠ '+' := by
    rintro rfl
    cases h
  have hminus : c ≠ '-' := by
    rintro rfl
    cases h
  rw [fromStrRadix_of_digits (List.cons_ne_nil _ _), readDigits_singleton hbound] at h
  · exact h
  · intro d hd
    obtain rfl := Option.some.inj hd
    exact ⟨hplus, hminus⟩

/-- Two characters are two digits, or a plus and a digit. -/
theorem fromStrRadix_pair {radix bound n : Nat} {c d : Char} (hbound : radix * radix ≤ bound) :
    fromStrRadix radix bound [c, d] = some n
      ↔ (c = '+' ∧ charToDigit radix d = some n)
        ∨ c ≠ '+' ∧ ∃ high low, charToDigit radix c = some high ∧ charToDigit radix d = some low
          ∧ n = high * radix + low := by
  have hle : radix ≤ bound := Nat.le_trans (Nat.le_mul_self radix) hbound
  have hnosign : ¬ ([c, d] = [] ∨ [c, d] = ['+'] ∨ [c, d] = ['-']) := by simp
  rw [fromStrRadix, if_neg hnosign]
  by_cases hplus : c = '+'
  · simp [hplus, readDigits_singleton hle]
  · have hhead : ([c, d] : List Char).head? ≠ some '+' := fun h => hplus (Option.some.inj h)
    rw [if_neg hhead, show [c, d] = [c] ++ [d] from rfl, readDigits_concat,
      readDigits_singleton hle]
    simp only [hplus, false_and, false_or, ne_eq, not_false_eq_true, true_and, Option.bind_eq_bind,
      Option.bind_eq_some_iff, Option.ite_none_right_eq_some, Option.some.injEq]
    constructor
    · rintro ⟨high, hhigh, low, hlow, -, rfl⟩
      exact ⟨high, low, hhigh, hlow, rfl⟩
    · rintro ⟨high, low, hhigh, hlow, rfl⟩
      have hhighLt := charToDigit_lt hhigh
      have hlowLt := charToDigit_lt hlow
      have hlt : high * radix + low < radix * radix := by
        calc high * radix + low < high * radix + radix := by omega
          _ = (high + 1) * radix := by rw [Nat.add_mul, Nat.one_mul]
          _ ≤ radix * radix := Nat.mul_le_mul_right radix hhighLt
      exact ⟨high, hhigh, low, hlow, by omega, rfl⟩

end TextLines
