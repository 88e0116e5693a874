/-
Text as a terminal may be shown it: the escapes of the standard library,
and what a reader makes of them.

# One escape after the other

A character is written as itself, as a backslash and a letter, or as its
number between braces (`escapeDefault`). A reader takes one of these off the
front of a text (`readEscape`), whatever follows it; so a text is the escape
of one text only (`escapeText_injective`).

# What is shown

Nothing but printable ASCII: neither a tab nor an end of line, nor what
starts a control sequence (`printable_of_mem_escapeText`).
-/
import MeissnerSeal.Lib.TextLines

namespace EscapedText

open TextLines

-- ================================================================== writer

/-- `c.escape_default()`. -/
def escapeDefault (c : Char) : List Char :=
  if c = '\t' then ['\\', 't']
  else if c = '\r' then ['\\', 'r']
  else if c = '\n' then ['\\', 'n']
  else if c = '\\' ∨ c = '\x27' ∨ c = '\x22' then ['\\', c]
  else if ' ' ≤ c ∧ c ≤ '~' then [c]
  else ['\\', 'u', '\x7b'] ++ Nat.toDigits 16 c.toNat ++ ['\x7d']

/-- `text.escape_default().to_string()`. -/
def escapeText (text : String) : String := String.ofList (text.toList.flatMap escapeDefault)

/-- `' '..='~'`. -/
def Printable (c : Char) : Prop := ' ' ≤ c ∧ c ≤ '~'

instance : DecidablePred Printable := fun c => inferInstanceAs (Decidable (' ' ≤ c ∧ c ≤ '~'))

/-- The digits of a numeral are hexadecimal digits. -/
theorem exists_digitChar_of_mem_toDigits {radix : Nat} (hradix : 1 < radix) :
    ∀ n, ∀ c ∈ Nat.toDigits radix n, ∃ digit < radix, c = digit.digitChar := by
  intro n
  induction n using Nat.strongRecOn with
  | ind n ih =>
      intro c hc
      rw [Nat.toDigits_eq_if hradix] at hc
      by_cases hsmall : n < radix
      · rw [if_pos hsmall] at hc
        exact ⟨n, hsmall, List.mem_singleton.mp hc⟩
      · rw [if_neg hsmall] at hc
        obtain hfront | hlast := List.mem_append.mp hc
        · exact ih _ (Nat.div_lt_self (by omega) hradix) c hfront
        · exact ⟨n % radix, Nat.mod_lt n (by omega), List.mem_singleton.mp hlast⟩

theorem printable_digitChar : ∀ digit < 16, Printable digit.digitChar := by decide

theorem digitChar_ne_brace : ∀ digit < 16, digit.digitChar ≠ '\x7d' := by decide

theorem printable_of_all {text : List Char} (hall : text.all (decide <| Printable ·) = true)
    {shown : Char} (h : shown ∈ text) : Printable shown :=
  of_decide_eq_true (List.all_eq_true.mp hall shown h)

/-- An escape shows printable characters only. -/
theorem printable_of_mem_escapeDefault {c shown : Char} (h : shown ∈ escapeDefault c) :
    Printable shown := by
  unfold escapeDefault at h
  split at h
  · exact printable_of_all (by decide) h
  split at h
  · exact printable_of_all (by decide) h
  split at h
  · exact printable_of_all (by decide) h
  split at h
  · next hquote =>
      apply printable_of_all _ h
      rcases hquote with rfl | rfl | rfl <;> decide
  split at h
  · next hprintable =>
      rw [List.mem_singleton.mp h]
      exact hprintable
  · rw [List.mem_append, List.mem_append] at h
    rcases h with (hopen | hdigit) | hclose
    · exact printable_of_all (by decide) hopen
    · obtain ⟨digit, hlt, rfl⟩ := exists_digitChar_of_mem_toDigits (by decide) _ _ hdigit
      exact printable_digitChar digit hlt
    · exact printable_of_all (by decide) hclose

/-- An escaped text shows printable characters only. -/
theorem printable_of_mem_escapeText {text : String} {shown : Char}
    (h : shown ∈ (escapeText text).toList) : Printable shown := by
  rw [escapeText, String.toList_ofList, List.mem_flatMap] at h
  obtain ⟨c, -, hc⟩ := h
  exact printable_of_mem_escapeDefault hc

-- ================================================================== reader

/-- The first character of an escaped text, and what follows its escape. -/
def readEscape : List Char → Option (Char × List Char)
  | [] => none
  | '\\' :: 't' :: cs => some ('\t', cs)
  | '\\' :: 'r' :: cs => some ('\r', cs)
  | '\\' :: 'n' :: cs => some ('\n', cs)
  | '\\' :: 'u' :: cs => do
      let n ← readDigits 16 0x110000 ((cs.drop 1).takeWhile (· ≠ '\x7d'))
      return (Char.ofNat n, ((cs.drop 1).dropWhile (· ≠ '\x7d')).drop 1)
  | '\\' :: c :: cs => some (c, cs)
  | c :: cs => some (c, cs)

/-- A character that needs no escape is read as it stands. -/
theorem readEscape_of_ne {c : Char} (h : c ≠ '\\') (cs : List Char) :
    readEscape (c :: cs) = some (c, cs) := by
  unfold readEscape
  split <;> simp_all

theorem toNat_lt_of_char (c : Char) : c.toNat < 0x110000 := by
  obtain hlow | ⟨-, hhigh⟩ := c.valid
  · exact Nat.lt_trans hlow (by decide)
  · exact hhigh

/-- A number between braces is read back. -/
theorem readEscape_unicode (c : Char) (rest : List Char) :
    readEscape (['\\', 'u', '\x7b'] ++ Nat.toDigits 16 c.toNat ++ ['\x7d'] ++ rest)
      = some (c, rest) := by
  have hdigits : ∀ d ∈ Nat.toDigits 16 c.toNat, decide (d ≠ '\x7d') = true := by
    intro d hd
    obtain ⟨digit, hlt, rfl⟩ := exists_digitChar_of_mem_toDigits (by decide) _ _ hd
    exact decide_eq_true (digitChar_ne_brace digit hlt)
  have hread : readDigits 16 0x110000 (Nat.toDigits 16 c.toNat) = some c.toNat :=
    readDigits_toDigits (by decide) (by decide) _ (toNat_lt_of_char c)
  have htake : (Nat.toDigits 16 c.toNat ++ '\x7d' :: rest).takeWhile (· ≠ '\x7d')
      = Nat.toDigits 16 c.toNat := by
    rw [List.takeWhile_append_of_pos hdigits, List.takeWhile_cons_of_neg (by simp), List.append_nil]
  have hdrop : (Nat.toDigits 16 c.toNat ++ '\x7d' :: rest).dropWhile (· ≠ '\x7d')
      = '\x7d' :: rest := by
    rw [List.dropWhile_append_of_pos hdigits, List.dropWhile_cons_of_neg (by simp)]
  simp only [List.cons_append, List.nil_append, List.append_assoc]
  show (do
    let n ← readDigits 16 0x110000
      ((Nat.toDigits 16 c.toNat ++ '\x7d' :: rest).takeWhile (· ≠ '\x7d'))
    return (Char.ofNat n,
      ((Nat.toDigits 16 c.toNat ++ '\x7d' :: rest).dropWhile (· ≠ '\x7d')).drop 1)) = some (c, rest)
  rw [htake, hdrop, hread]
  simp

/-- An escape is read back, whatever follows it. -/
theorem readEscape_escapeDefault (c : Char) (rest : List Char) :
    readEscape (escapeDefault c ++ rest) = some (c, rest) := by
  unfold escapeDefault
  split
  · next htab => exact htab ▸ rfl
  split
  · next hreturn => exact hreturn ▸ rfl
  split
  · next hnewline => exact hnewline ▸ rfl
  split
  · next hquote => obtain rfl | rfl | rfl := hquote <;> rfl
  split
  · next hslash hprintable =>
      exact readEscape_of_ne (fun hc => hslash (.inl hc)) rest
  · exact readEscape_unicode c rest

/-- What a reader takes off the front of a code, one symbol at a time, is the
code of one word. -/
theorem flatMap_injective_of_read {α β : Type} {code : α → List β}
    {read : List β → Option (α × List β)} (hread : ∀ a rest, read (code a ++ rest) = some (a, rest))
    (hnil : read [] = none) : Function.Injective fun word : List α => word.flatMap code := by
  intro word
  induction word with
  | nil =>
      intro word' h
      cases word' with
      | nil => rfl
      | cons b bs =>
          simp only [List.flatMap_nil, List.flatMap_cons] at h
          rw [h, hread] at hnil
          cases hnil
  | cons a as ih =>
      intro word' h
      cases word' with
      | nil =>
          simp only [List.flatMap_nil, List.flatMap_cons] at h
          rw [← h, hread] at hnil
          cases hnil
      | cons b bs =>
          simp only [List.flatMap_cons] at h
          have hfront := congrArg read h
          rw [hread, hread, Option.some.injEq, Prod.mk.injEq] at hfront
          obtain ⟨rfl, hrest⟩ := hfront
          rw [ih hrest]

/-- A text is the escape of one text. -/
theorem escapeText_injective : Function.Injective escapeText := by
  intro text text' h
  have hlist := congrArg String.toList h
  rw [escapeText, escapeText, String.toList_ofList, String.toList_ofList] at hlist
  exact String.toList_injective (flatMap_injective_of_read readEscape_escapeDefault rfl hlist)

end EscapedText
