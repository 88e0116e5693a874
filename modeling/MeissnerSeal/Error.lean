/-
The core error type, checked `usize` arithmetic, and bounds-checked byte
access: the vocabulary every modelled function of the vault is written
in. Targets are 64-bit, so `usize::try_from` of a `u32` or `u64` is the
identity and is not written.
-/
import MeissnerSeal.Lib.ByteCodec
import MeissnerSeal.Lib.ExceptRules

namespace MeissnerSeal

open ByteCodec ExceptRules

/-- `CoreError`. The last constructor is no error value of the source:
it marks an out-of-bounds index or an arithmetic overflow, where the
program would panic. -/
inductive CoreError where
  | format (message : String)
  | auth
  | notFound (id : String)
  | invalidState (message : String)
  | crypto
  | io
  | partialImport
  | panic
  deriving DecidableEq, Repr

instance : ExceptRules.Panics CoreError := ⟨.panic⟩

/-- `core::result::Result<T, CoreError>`. -/
abbrev Res (α : Type _) := Except CoreError α

def formatError (message : String) : CoreError := .format message

-- ==================================================== usize arithmetic

/-- `usize::MAX`. -/
def usizeMax : Nat := 2 ^ 64 - 1

/-- `a.checked_add(b)`. -/
def checkedAdd (a b : Nat) : Option Nat := if a + b ≤ usizeMax then some (a + b) else none

/-- `a.checked_sub(b)`. -/
def checkedSub (a b : Nat) : Option Nat := if b ≤ a then some (a - b) else none

/-- `a.checked_mul(b)`. -/
def checkedMul (a b : Nat) : Option Nat := if a * b ≤ usizeMax then some (a * b) else none

/-- `a + b`, which panics on overflow. -/
def usizeAdd (a b : Nat) : Res Nat := okOr (checkedAdd a b) .panic

/-- `a - b`, which panics on underflow. -/
def usizeSub (a b : Nat) : Res Nat := okOr (checkedSub a b) .panic

/-- `u16::try_from(n)`. -/
def u16TryFrom (n : Nat) : Option UInt16 := if n < 2 ^ 16 then some (UInt16.ofNat n) else none

/-- `u32::try_from(n)`. -/
def u32TryFrom (n : Nat) : Option UInt32 := if n < 2 ^ 32 then some (UInt32.ofNat n) else none

/-- `u64::try_from(n)`. -/
def u64TryFrom (n : Nat) : Option UInt64 := if n < 2 ^ 64 then some (UInt64.ofNat n) else none

@[simp] theorem checkedAdd_eq_some {a b c : Nat} :
    checkedAdd a b = some c ↔ c = a + b ∧ a + b ≤ usizeMax := by
  unfold checkedAdd
  split
  case isTrue h => simp [h, eq_comm]
  case isFalse h => simp [h]

@[simp] theorem checkedSub_eq_some {a b c : Nat} :
    checkedSub a b = some c ↔ c = a - b ∧ b ≤ a := by
  unfold checkedSub
  split
  case isTrue h => simp [h, eq_comm]
  case isFalse h => simp [h]

@[simp] theorem checkedMul_eq_some {a b c : Nat} :
    checkedMul a b = some c ↔ c = a * b ∧ a * b ≤ usizeMax := by
  unfold checkedMul
  split
  case isTrue h => simp [h, eq_comm]
  case isFalse h => simp [h]

@[simp] theorem usizeAdd_eq_ok {a b c : Nat} :
    usizeAdd a b = .ok c ↔ c = a + b ∧ a + b ≤ usizeMax := by
  simp [usizeAdd]

@[simp] theorem usizeSub_eq_ok {a b c : Nat} :
    usizeSub a b = .ok c ↔ c = a - b ∧ b ≤ a := by
  simp [usizeSub]

@[simp] theorem u16TryFrom_eq_some {n : Nat} {v : UInt16} :
    u16TryFrom n = some v ↔ v.toNat = n := by
  unfold u16TryFrom
  have hv := v.toNat_lt
  split
  case isTrue h =>
    rw [Option.some.injEq]
    constructor
    · rintro rfl
      exact UInt16.toNat_ofNat_of_lt' h
    · rintro rfl
      exact UInt16.ofNat_toNat
  case isFalse h =>
    constructor
    · intro h'
      cases h'
    · rintro rfl
      exact absurd hv h

@[simp] theorem u32TryFrom_eq_some {n : Nat} {v : UInt32} :
    u32TryFrom n = some v ↔ v.toNat = n := by
  unfold u32TryFrom
  have hv := v.toNat_lt
  split
  case isTrue h =>
    rw [Option.some.injEq]
    constructor
    · rintro rfl
      exact UInt32.toNat_ofNat_of_lt' h
    · rintro rfl
      exact UInt32.ofNat_toNat
  case isFalse h =>
    constructor
    · intro h'
      cases h'
    · rintro rfl
      exact absurd hv h

@[simp] theorem u64TryFrom_eq_some {n : Nat} {v : UInt64} :
    u64TryFrom n = some v ↔ v.toNat = n := by
  unfold u64TryFrom
  have hv := v.toNat_lt
  split
  case isTrue h =>
    rw [Option.some.injEq]
    constructor
    · rintro rfl
      exact UInt64.toNat_ofNat_of_lt' h
    · rintro rfl
      exact UInt64.ofNat_toNat
  case isFalse h =>
    constructor
    · intro h'
      cases h'
    · rintro rfl
      exact absurd hv h

/-- A length that fits has its `u32`. -/
theorem u32TryFrom_of_lt {n : Nat} (h : n < 2 ^ 32) :
    u32TryFrom n = some (UInt32.ofNat n) := if_pos h

theorem toNat_u32_ofNat {n : Nat} (h : n < 2 ^ 32) : (UInt32.ofNat n).toNat = n :=
  UInt32.toNat_ofNat_of_lt' h

-- ======================================================== byte access

/-- `bytes[i]`. -/
def index (bytes : Bytes) (i : Nat) : Res UInt8 := okOr bytes[i]? .panic

/-- `&bytes[start..stop]`. -/
def sliceIndex (bytes : Bytes) (start stop : Nat) : Res Bytes :=
  okOr (slice? bytes start stop) .panic

@[simp] theorem sliceIndex_eq_ok {bytes x : Bytes} {start stop : Nat} :
    sliceIndex bytes start stop = .ok x ↔ SegAt bytes start x ∧ stop = start + x.length := by
  simp [sliceIndex, slice?_eq_some_iff]

@[simp] theorem index_eq_ok {bytes : Bytes} {i : Nat} {v : UInt8} :
    index bytes i = .ok v ↔ SegAt bytes i [v] := by
  simp only [index, okOr_eq_ok]
  constructor
  · intro h
    obtain ⟨hi, hv⟩ := List.getElem?_eq_some_iff.mp h
    refine ⟨bytes.take i, bytes.drop (i + 1), ?_, by rw [List.length_take]; omega⟩
    rw [← hv, List.singleton_append, ← List.drop_eq_getElem_cons, List.take_append_drop]
  · rintro ⟨pre, post, rfl, rfl⟩
    simp

/-- `bytes.try_into()` for a fixed-size array. -/
def readArray (n : Nat) (bytes : Bytes) (error : String) : Res (U8Array n) :=
  if h : bytes.length = n then .ok ⟨bytes, h⟩ else .error (formatError error)

@[simp] theorem readArray_eq_ok {n : Nat} {bytes : Bytes} {error : String} {v : U8Array n} :
    readArray n bytes error = .ok v ↔ bytes = v.toList := by
  unfold readArray
  split
  case isTrue h =>
    constructor
    · intro h'
      injection h' with h'
      rw [← h']
      rfl
    · rintro rfl
      rfl
  case isFalse h =>
    constructor
    · intro h'
      cases h'
    · rintro rfl
      exact absurd v.toList_length h

-- ================================================================ ids

/-- The `n`-th of many ids. -/
def numberedId (n : Nat) : U8Array 16 :=
  ⟨leU32 (UInt32.ofNat n) ++ List.replicate 12 0, by
    rw [List.length_append, length_leU32, List.length_replicate]⟩

theorem numberedId_inj {n k : Nat} (hn : n < 2 ^ 32) (hk : k < 2 ^ 32)
    (h : numberedId n = numberedId k) : n = k := by
  have hlist : leU32 (UInt32.ofNat n) ++ List.replicate 12 0
      = leU32 (UInt32.ofNat k) ++ List.replicate 12 0 := congrArg List.Vector.toList h
  have hnat := congrArg UInt32.toNat (leU32_append_inj hlist).1
  rwa [toNat_u32_ofNat hn, toNat_u32_ofNat hk] at hnat

end MeissnerSeal
