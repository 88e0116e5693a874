/-
`AEAD_XCHACHA20_POLY1305_V1`: the crate's wrapper over the third-party
cipher. The cipher itself is a parameter of the model, constrained only
by what its crate documents: it decrypts what it encrypted, it appends a
16-byte tag, and it accepts every message this format can carry.
-/
import MeissnerSeal.Error

namespace MeissnerSeal

open ByteCodec ExceptRules

/-- XChaCha20-Poly1305 authentication tag length in bytes. -/
def tagLen : Nat := 16

/-- Canonical record-level AAD length. -/
def recordAadLen : Nat := 79

/-- `AeadKey` and every other 32-byte key. -/
abbrev Key := U8Array 32

/-- `XChaCha20Nonce`. -/
abbrev Nonce := U8Array 24

/-- The `chacha20poly1305` crate's `XChaCha20Poly1305`, with the part of
its documented behaviour the vault relies on. -/
structure XChaCha20Poly1305 where
  encrypt : Key → Nonce → Bytes → Bytes → Option Bytes
  decrypt : Key → Nonce → Bytes → Bytes → Option Bytes
  decrypt_encrypt : ∀ {key nonce msg aad ciphertext},
    encrypt key nonce msg aad = some ciphertext → decrypt key nonce ciphertext aad = some msg
  length_encrypt : ∀ {key nonce msg aad ciphertext},
    encrypt key nonce msg aad = some ciphertext → ciphertext.length = msg.length + tagLen
  encrypt_isSome : ∀ key nonce msg aad,
    msg.length < 2 ^ 32 → (encrypt key nonce msg aad).isSome

inductive AeadError where
  | encrypt
  | decrypt
  | nonce
  /-- No error of the crate: a generator that fails panics. -/
  | panic
  deriving DecidableEq, Repr

instance : Panics AeadError := ⟨.panic⟩

variable (cipher : XChaCha20Poly1305)

/-- `aead::encrypt`. The nonce is the generator's draw; `none` is a
failed draw, on which the generator panics. -/
def encrypt (draw : Option Nonce) (key : Key) (plaintext aad : Bytes) :
    Except AeadError (Bytes × Nonce) := do
  let nonce ← okOr draw .panic
  let ciphertext ← okOr (cipher.encrypt key nonce plaintext aad) .encrypt
  return (ciphertext, nonce)

/-- `aead::decrypt`. -/
def decrypt (key : Key) (nonce : Nonce) (ciphertext aad : Bytes) : Except AeadError Bytes := do
  rejectIf (ciphertext.length < tagLen) .decrypt
  okOr (cipher.decrypt key nonce ciphertext aad) .decrypt

variable {cipher}

theorem encrypt_eq_ok {draw : Option Nonce} {key : Key} {plaintext aad ciphertext : Bytes}
    {nonce : Nonce} :
    encrypt cipher draw key plaintext aad = .ok (ciphertext, nonce)
      ↔ draw = some nonce ∧ cipher.encrypt key nonce plaintext aad = some ciphertext := by
  simp only [encrypt, bind_eq_ok, okOr_eq_ok, pure_eq_ok, Except.ok.injEq, Prod.mk.injEq]
  constructor
  · rintro ⟨nonce', hdraw, ciphertext', henc, rfl, rfl⟩
    exact ⟨hdraw, henc⟩
  · rintro ⟨hdraw, henc⟩
    exact ⟨nonce, hdraw, ciphertext, henc, rfl, rfl⟩

/-- What was encrypted decrypts. -/
theorem decrypt_of_encrypt {key : Key} {nonce : Nonce} {plaintext aad ciphertext : Bytes}
    (h : cipher.encrypt key nonce plaintext aad = some ciphertext) :
    decrypt cipher key nonce ciphertext aad = .ok plaintext := by
  have hlen := cipher.length_encrypt h
  have htag : ¬ ciphertext.length < tagLen := by omega
  rw [decrypt, rejectIf_neg _ htag, ok_bind, cipher.decrypt_encrypt h]
  rfl

/-- A message that fits a `u32` length encrypts under every drawn nonce. -/
theorem exists_encrypt (key : Key) (nonce : Nonce) {plaintext : Bytes} (aad : Bytes)
    (h : plaintext.length < 2 ^ 32) :
    ∃ ciphertext, cipher.encrypt key nonce plaintext aad = some ciphertext :=
  Option.isSome_iff_exists.mp (cipher.encrypt_isSome key nonce plaintext aad h)

end MeissnerSeal
