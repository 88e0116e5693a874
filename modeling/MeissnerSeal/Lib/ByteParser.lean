/-
Parsers that consume a byte string from the front: fixed-size reads, and
the rule by which a layout is read back.

# Round trips

`Reads p x a` says that `p` reads exactly `x` off any bytes that begin
with it and returns `a`. A parser of a layout written as a chain of
appends reads it when each step reads its part (`Reads.bind`); a whole
file is then parsed with nothing left (`Reads.run`).

# The other way

`Consumes p x` says that `p`, where it returns `a`, has taken `x a` off
the front of its input: what was parsed determines what was read. A chain
is taken apart from its first step (`Consumes.peel`).
-/
import MeissnerSeal.Lib.ByteCodec
import MeissnerSeal.Lib.ExceptRules

/-- A parser; its state is the bytes not yet read. -/
abbrev ByteParser (ε α : Type) := StateT ByteCodec.Bytes (Except ε) α

namespace ByteParser

open ByteCodec ExceptRules

variable {ε α β : Type}

/-- `parser.take(len)`. -/
def take (e : ε) (len : Nat) : ByteParser ε Bytes := fun bytes =>
  if len ≤ bytes.length then .ok (bytes.take len, bytes.drop len) else .error e

/-- `parser.take_array::<N>()`. -/
def takeArray (e : ε) (n : Nat) : ByteParser ε (U8Array n) := fun bytes =>
  if h : n ≤ bytes.length then
    .ok (⟨bytes.take n, by rw [List.length_take, Nat.min_eq_left h]⟩, bytes.drop n)
  else .error e

/-- `parser.take_u8()`. -/
def takeU8 (e : ε) : ByteParser ε UInt8 := do
  let array ← takeArray e 1
  return array.head

/-- `parser.take_u16_le()`. -/
def takeU16Le (e : ε) : ByteParser ε UInt16 := do
  let array ← takeArray e 2
  return u16OfLE array

/-- `parser.take_u32_le()`. -/
def takeU32Le (e : ε) : ByteParser ε UInt32 := do
  let array ← takeArray e 4
  return u32OfLE array

/-- `parser.take_u64_le()`. -/
def takeU64Le (e : ε) : ByteParser ε UInt64 := do
  let array ← takeArray e 8
  return u64OfLE array

/-- `if bad { return Err(e) }`. -/
def guardNot (bad : Prop) [Decidable bad] (e : ε) : ByteParser ε Unit :=
  StateT.lift (rejectIf bad e)

theorem bind_apply (p : ByteParser ε α) (f : α → ByteParser ε β) (bytes : Bytes) :
    (p >>= f) bytes = (p bytes >>= fun r => f r.1 r.2) := rfl

theorem pure_apply (a : α) (bytes : Bytes) : (pure a : ByteParser ε α) bytes = .ok (a, bytes) := rfl

-- ============================================================= reading back

/-- The parser reads exactly `x` and returns `a`. -/
def Reads (p : ByteParser ε α) (x : Bytes) (a : α) : Prop :=
  ∀ rest, p (x ++ rest) = .ok (a, rest)

theorem Reads.pure (a : α) : Reads (pure a : ByteParser ε α) [] a := fun _ => rfl

theorem Reads.bind {p : ByteParser ε α} {f : α → ByteParser ε β} {x y : Bytes} {a : α} {b : β}
    (hp : Reads p x a) (hf : Reads (f a) y b) : Reads (p >>= f) (x ++ y) b := by
  intro rest
  rw [bind_apply, List.append_assoc, hp]
  exact hf rest

/-- A last read, and what is made of it. -/
theorem Reads.bind_nil {p : ByteParser ε α} {f : α → ByteParser ε β} {x : Bytes} {a : α} {b : β}
    (hp : Reads p x a) (hf : Reads (f a) [] b) : Reads (p >>= f) x b := by
  have hboth := hp.bind hf
  rwa [List.append_nil] at hboth

/-- A check that passes reads nothing. -/
theorem Reads.guardNot {bad : Prop} [Decidable bad] {e : ε} {f : Unit → ByteParser ε β} {x : Bytes}
    {b : β} (h : ¬ bad) (hf : Reads (f ()) x b) : Reads (guardNot bad e >>= f) x b := by
  intro rest
  have hpass : ByteParser.guardNot bad e (x ++ rest) = .ok ((), x ++ rest) := by
    rw [ByteParser.guardNot, rejectIf_neg e h]
    rfl
  rw [bind_apply, hpass]
  exact hf rest

/-- A conversion of what was read reads nothing. -/
theorem Reads.lift {r : Except ε α} {a : α} {f : α → ByteParser ε β} {x : Bytes} {b : β}
    (h : r = .ok a) (hf : Reads (f a) x b) : Reads (StateT.lift r >>= f) x b := by
  intro rest
  rw [h]
  exact hf rest

theorem Reads.run {p : ByteParser ε α} {x : Bytes} {a : α} (h : Reads p x a) :
    p x = .ok (a, []) := by
  have hend := h []
  rwa [List.append_nil] at hend

theorem reads_take (e : ε) (x : Bytes) : Reads (take e x.length) x x := by
  intro rest
  rw [take, if_pos (by rw [List.length_append]; omega), List.take_left', List.drop_left']
  · rfl
  · rfl

theorem reads_takeArray (e : ε) {n : Nat} (a : U8Array n) : Reads (takeArray e n) a.toList a := by
  intro rest
  have hlen : a.toList.length = n := a.toList_length
  have hle : n ≤ (a.toList ++ rest).length := by
    rw [List.length_append, hlen]
    omega
  rw [takeArray, dif_pos hle, List.drop_left' hlen]
  congr 2
  exact List.Vector.toList_injective (List.take_left' hlen)

/-- A word read through its array. -/
theorem Reads.return {p : ByteParser ε α} {x : Bytes} {a : α} {f : α → β} {b : β}
    (h : Reads p x a) (hf : f a = b) : Reads (do let v ← p; return f v) x b := by
  intro rest
  rw [bind_apply, h rest, ok_bind, pure_apply, hf]

theorem reads_takeU8 (e : ε) (b : UInt8) : Reads (takeU8 e) [b] b :=
  (reads_takeArray e (⟨[b], rfl⟩ : U8Array 1)).return rfl

theorem reads_takeU16Le (e : ε) (v : UInt16) : Reads (takeU16Le e) (leU16 v) v :=
  (reads_takeArray e (arrayLE16 v)).return (u16OfLE_arrayLE16 v)

theorem reads_takeU32Le (e : ε) (v : UInt32) : Reads (takeU32Le e) (leU32 v) v :=
  (reads_takeArray e (arrayLE32 v)).return (u32OfLE_arrayLE32 v)

theorem reads_takeU64Le (e : ε) (v : UInt64) : Reads (takeU64Le e) (leU64 v) v :=
  (reads_takeArray e (arrayLE64 v)).return (u64OfLE_arrayLE64 v)

-- ========================================================= what was read

/-- Where the parser returns `a`, it has read `x a`. -/
def Consumes (p : ByteParser ε α) (x : α → Bytes) : Prop :=
  ∀ bytes a rest, p bytes = .ok (a, rest) → bytes = x a ++ rest

/-- The first step of a chain, and the rest of it on what is left. -/
theorem Consumes.peel {p : ByteParser ε α} {x : α → Bytes} {f : α → ByteParser ε β} {bytes : Bytes}
    {r : β × Bytes} (hp : Consumes p x) (h : (p >>= f) bytes = .ok r) :
    ∃ a mid, bytes = x a ++ mid ∧ f a mid = .ok r := by
  rw [bind_apply, bind_eq_ok] at h
  obtain ⟨⟨a, mid⟩, hfirst, hrest⟩ := h
  exact ⟨a, mid, hp bytes a mid hfirst, hrest⟩

theorem guardNot_peel {bad : Prop} [Decidable bad] {e : ε} {f : Unit → ByteParser ε β}
    {bytes : Bytes} {r : β × Bytes} (h : (guardNot bad e >>= f) bytes = .ok r) :
    ¬ bad ∧ f () bytes = .ok r := by
  by_cases hbad : bad
  · rw [bind_apply, guardNot, rejectIf_pos e hbad] at h
    cases h
  · rw [bind_apply, guardNot, rejectIf_neg e hbad] at h
    exact ⟨hbad, h⟩

theorem lift_peel {c : Except ε α} {f : α → ByteParser ε β} {bytes : Bytes} {r : β × Bytes}
    (h : (StateT.lift c >>= f) bytes = .ok r) : ∃ a, c = .ok a ∧ f a bytes = .ok r := by
  cases c with
  | error e => cases h
  | ok a => exact ⟨a, rfl, h⟩

theorem take_eq_ok {e : ε} {len : Nat} {bytes a rest : Bytes} :
    take e len bytes = .ok (a, rest) ↔ bytes = a ++ rest ∧ a.length = len := by
  constructor
  · intro h
    unfold take at h
    split at h
    case isTrue hle =>
      injection h with h
      obtain ⟨rfl, rfl⟩ := Prod.mk.inj h
      exact ⟨(List.take_append_drop len bytes).symm, by rw [List.length_take]; omega⟩
    case isFalse => cases h
  · rintro ⟨rfl, rfl⟩
    exact reads_take e a rest

theorem take_peel {e : ε} {len : Nat} {f : Bytes → ByteParser ε β} {bytes : Bytes} {r : β × Bytes}
    (h : (take e len >>= f) bytes = .ok r) :
    ∃ a mid, bytes = a ++ mid ∧ a.length = len ∧ f a mid = .ok r := by
  rw [bind_apply, bind_eq_ok] at h
  obtain ⟨⟨a, mid⟩, hfirst, hrest⟩ := h
  obtain ⟨hbytes, hlen⟩ := take_eq_ok.mp hfirst
  exact ⟨a, mid, hbytes, hlen, hrest⟩

theorem consumes_takeArray (e : ε) (n : Nat) :
    Consumes (takeArray e n) (fun a : U8Array n => a.toList) := by
  intro bytes a rest h
  unfold takeArray at h
  split at h
  case isTrue hle =>
    injection h with h
    obtain ⟨rfl, rfl⟩ := Prod.mk.inj h
    exact (List.take_append_drop n bytes).symm
  case isFalse => cases h

/-- A word read through its array: the array determines the word, and the
word the array. -/
theorem Consumes.return {p : ByteParser ε α} {x : α → Bytes} {f : α → β} {y : β → Bytes}
    (hp : Consumes p x) (hf : ∀ a, y (f a) = x a) : Consumes (do let v ← p; return f v) y := by
  intro bytes b rest h
  obtain ⟨a, mid, hbytes, hret⟩ := hp.peel h
  rw [pure_apply, Except.ok.injEq, Prod.mk.injEq] at hret
  rw [← hret.1, ← hret.2, hf]
  exact hbytes

theorem consumes_takeU8 (e : ε) : Consumes (takeU8 e) (fun b => [b]) := by
  refine (consumes_takeArray e 1).return fun a => ?_
  obtain ⟨b, hb⟩ := List.length_eq_one_iff.mp a.toList_length
  have ha : a = ⟨[b], rfl⟩ := List.Vector.toList_injective hb
  rw [ha]
  rfl

theorem consumes_takeU16Le (e : ε) : Consumes (takeU16Le e) leU16 :=
  (consumes_takeArray e 2).return leU16_u16OfLE

theorem consumes_takeU32Le (e : ε) : Consumes (takeU32Le e) leU32 :=
  (consumes_takeArray e 4).return leU32_u32OfLE

theorem consumes_takeU64Le (e : ε) : Consumes (takeU64Le e) leU64 :=
  (consumes_takeArray e 8).return leU64_u64OfLE

end ByteParser
