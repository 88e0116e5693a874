/-
Who can have made a bundle that opens.

# Passphrases

What opens under one passphrase opens under no other: for the bundles and
passphrases at hand, this is asked of the cipher and of the derivation.

# Bytes

The associated data of a bundle covers its version and its vault id, not the
block of KDF parameters. So a bundle that opens is one that an `export` has
written under the same passphrase, up to the order of the parameters in that
block (`authenticate_iff_exported`); where they stand in the writer's order,
it is that bundle byte for byte.
-/
import MeissnerSeal.Crypto.Sealing
import MeissnerSeal.Export.Migration
import MeissnerSeal.Vault.KdfTlvs

namespace MeissnerSeal

open ByteCodec ExceptRules

variable {platform : Platform} {bundle passphrase : Bytes} {items : List PlainItem}

-- ============================================================= passphrases

/-- What an `authenticate` of some bytes asks the cipher to decrypt. -/
def BundleAsks (platform : Platform) (passphrase bytes : Bytes) (s : Sealing) : Prop :=
  ∃ (parsed : ParsedBundle) (kdfParams : HeaderKdfParams) (key : Key),
    parseBundle bytes = .ok parsed ∧ parseKdfProfileParams parsed.kdfParams = .ok kdfParams
    ∧ deriveExportKey platform passphrase parsed.sourceVaultId kdfParams = .ok key
    ∧ s = ⟨key, parsed.nonce, exportAad parsed.sourceVaultId parsed.version,
      parsed.ciphertextAndTag⟩

/-- The derivation tells a bundle's passphrase from another. -/
def PassphrasesApart (platform : Platform) (own passphrase bytes : Bytes) : Prop :=
  ∀ parsed kdfParams key, parseBundle bytes = .ok parsed →
    parseKdfProfileParams parsed.kdfParams = .ok kdfParams →
    deriveExportKey platform passphrase parsed.sourceVaultId kdfParams = .ok key →
    deriveExportKey platform own parsed.sourceVaultId kdfParams = .ok key → passphrase = own

/-- Bytes that a passphrase opens ask the cipher for what opens. -/
theorem opens_of_authenticate {passphrase bytes : Bytes} {items : List PlainItem}
    (h : authenticate platform bytes passphrase = .ok items) :
    ∃ s, BundleAsks platform passphrase bytes s ∧ s.Opens platform.cipher := by
  simp only [authenticate, bind_eq_ok, rejectIf_eq_ok, orErr_eq_ok] at h
  obtain ⟨-, -, parsed, hparsed, kdfParams, hkdf, key, hkey, plaintext, hplain, -⟩ := h
  exact ⟨_, ⟨parsed, kdfParams, key, hparsed, hkdf, hkey, rfl⟩, plaintext, hplain⟩

/-- Another passphrase opens no bundle. -/
theorem authenticate_of_other {own passphrase bytes : Bytes} (hne : passphrase ≠ own)
    (hauth : Authentic platform.cipher (BundleAsks platform passphrase bytes)
      (BundleAsks platform own bytes))
    (hapart : PassphrasesApart platform own passphrase bytes) :
    ∃ e, authenticate platform bytes passphrase = .error e := by
  cases hopen : authenticate platform bytes passphrase with
  | error e => exact ⟨e, rfl⟩
  | ok items =>
      obtain ⟨s, hasks, hopens⟩ := opens_of_authenticate hopen
      obtain ⟨parsed, kdfParams, key, hparsed, hkdf, hkey, hs⟩ := id hasks
      obtain ⟨parsed', kdfParams', key', hparsed', hkdf', hkey', hs'⟩ := hauth s hasks hopens
      obtain rfl : parsed = parsed' := Except.ok.inj (hparsed.symm.trans hparsed')
      obtain rfl : kdfParams = kdfParams' := Except.ok.inj (hkdf.symm.trans hkdf')
      rw [hs, Sealing.mk.injEq] at hs'
      obtain rfl := hs'.1
      exact absurd (hapart parsed kdfParams key hparsed hkdf hkey hkey') hne

-- ================================================================== exports

/-- A call of `export`, with its environment and the files it finds. -/
structure ExportCall where
  io : Nat → IoFaults
  draw : Option Nonce
  session : UnlockedVault
  passphrase : Bytes
  fs : Fs

def ExportCall.run (platform : Platform) (call : ExportCall) : Res Bytes :=
  (exportBundle platform call.io call.draw call.session call.passphrase call.fs).1

/-- The encryption a call makes. -/
structure ExportCall.Makes (platform : Platform) (call : ExportCall) (s : Sealing) : Prop where
  passphrase_ne : call.passphrase ≠ []
  sealed : ∃ plaintext,
    (serializeLiveItemSet platform call.io call.session call.fs).1 = .ok plaintext
      ∧ encrypt platform.cipher call.draw s.key plaintext s.aad = .ok (s.ciphertext, s.nonce)
  key : deriveExportKey platform call.passphrase call.session.context.vaultId canonicalArgon2idV1
    = .ok s.key
  aad : s.aad = exportAad call.session.context.vaultId msexpVersionV1

/-- The bundle around an encryption, with some encoding of its parameters. -/
def framedAs (call : ExportCall) (kdfParams : Bytes) (s : Sealing) : Res Bytes :=
  serializeBundle call.session.context.vaultId kdfParams s.nonce.toList s.ciphertext

/-- The derivation tells the keys of these calls from those of other
passphrases and parameters. -/
def ExportKeysApart (platform : Platform) (calls : ExportCall → Prop) (passphrase bundle : Bytes) :
    Prop :=
  ∀ call, calls call → ∀ parsed kdfParams key, parseBundle bundle = .ok parsed →
    parseKdfProfileParams parsed.kdfParams = .ok kdfParams →
    deriveExportKey platform passphrase parsed.sourceVaultId kdfParams = .ok key →
    deriveExportKey platform call.passphrase parsed.sourceVaultId canonicalArgon2idV1 = .ok key →
    call.passphrase = passphrase ∧ kdfParams.argon2 = canonicalArgon2idV1.argon2

theorem exportAad_inj {vaultId vaultId' : U8Array 16} {version version' : UInt16}
    (h : exportAad vaultId version = exportAad vaultId' version') :
    vaultId = vaultId' ∧ version = version' := by
  simp only [exportAad, List.append_assoc] at h
  obtain ⟨hid, h⟩ := array_append_inj h
  exact ⟨hid, leU16_inj (List.append_cancel_left h)⟩

/-- A call returns the bundle around its encryption. -/
theorem ExportCall.run_eq_ok {call : ExportCall} :
    call.run platform = .ok bundle
      ↔ ∃ s kdfParams, call.Makes platform s
        ∧ serializeKdfProfileParams canonicalArgon2idV1 = .ok kdfParams
        ∧ framedAs call kdfParams s = .ok bundle := by
  obtain ⟨kdf, hkdf⟩ : ∃ x, serializeKdfProfileParams canonicalArgon2idV1 = .ok x := ⟨_, rfl⟩
  unfold ExportCall.run exportBundle
  by_cases hpass : call.passphrase = []
  · simp only [FsM.bind_apply, FsM.lift, rejectIf_pos _ hpass, reduceCtorEq, false_iff]
    intro h
    obtain ⟨s, kdfParams, hmakes, -⟩ := h
    exact hmakes.passphrase_ne hpass
  simp only [FsM.bind_apply, FsM.lift, rejectIf_neg _ hpass, hkdf]
  rcases hset : serializeLiveItemSet platform call.io call.session call.fs with ⟨e | plaintext, fs⟩
  · simp only [reduceCtorEq, false_iff]
    intro h
    obtain ⟨s, kdfParams, hmakes, -⟩ := h
    obtain ⟨plaintext, hplain, -⟩ := hmakes.sealed
    rw [hset] at hplain
    cases hplain
  dsimp only
  cases hkey : deriveExportKey platform call.passphrase call.session.context.vaultId
      canonicalArgon2idV1 with
  | error e =>
      simp only [reduceCtorEq, false_iff]
      intro h
      obtain ⟨s, kdfParams, hmakes, -⟩ := h
      have hderived := hmakes.key
      rw [hkey] at hderived
      cases hderived
  | ok key =>
      dsimp only
      cases henc : encrypt platform.cipher call.draw key plaintext
          (exportAad call.session.context.vaultId msexpVersionV1) with
      | error e =>
          simp only [orErrUnwind, reduceCtorEq, false_iff]
          intro h
          obtain ⟨s, kdfParams, hmakes, -⟩ := h
          obtain ⟨plaintext', hplain, hencrypt⟩ := hmakes.sealed
          rw [hset] at hplain
          obtain rfl := Except.ok.inj hplain
          have hderived := hmakes.key
          rw [hkey, Except.ok.injEq] at hderived
          rw [← hderived, hmakes.aad, henc] at hencrypt
          cases hencrypt
      | ok sealed =>
          obtain ⟨ciphertext, nonce⟩ := sealed
          rw [orErrUnwind_ok]
          dsimp only
          constructor
          · intro h
            refine ⟨⟨key, nonce, exportAad call.session.context.vaultId msexpVersionV1, ciphertext⟩,
              kdf, ⟨hpass, ⟨plaintext, ?_, henc⟩, hkey, rfl⟩, rfl, h⟩
            rw [hset]
          · intro h
            obtain ⟨s, kdfParams, hmakes, hwritten, hframed⟩ := h
            obtain ⟨plaintext', hplain, hencrypt⟩ := hmakes.sealed
            rw [hset] at hplain
            obtain rfl := Except.ok.inj hplain
            have hderived := hmakes.key
            rw [hkey, Except.ok.injEq] at hderived
            rw [← hderived, hmakes.aad, henc, Except.ok.injEq, Prod.mk.injEq] at hencrypt
            obtain rfl := Except.ok.inj hwritten
            rw [hencrypt.1, hencrypt.2]
            exact hframed

-- =============================================================== bundles

/-- Framed with parameters that read as the writer's, an encryption opens to
the items it was made of. -/
theorem ExportCall.Makes.authenticate_eq {call : ExportCall} {s : Sealing}
    {kdfParams plaintext : Bytes} (h : call.Makes platform s)
    (hplain : (serializeLiveItemSet platform call.io call.session call.fs).1 = .ok plaintext)
    (hkdf : parseKdfProfileParams kdfParams = .ok canonicalArgon2idV1)
    (hframed : framedAs call kdfParams s = .ok bundle) :
    authenticate platform bundle call.passphrase = deserializeItemSet plaintext := by
  obtain ⟨plaintext', hplain', hencrypt⟩ := h.sealed
  obtain rfl := Except.ok.inj (hplain.symm.trans hplain')
  have hopen := decrypt_of_encrypt (encrypt_eq_ok.mp hencrypt).2
  rw [h.aad] at hopen
  simp only [authenticate, rejectIf_neg _ h.passphrase_ne, ok_bind,
    parseBundle_of_serialize hframed, hkdf, h.key, hopen, orErr_ok]

/-- The writer's parameters are read back. -/
theorem parseKdfProfileParams_canonical {kdfParams : Bytes}
    (h : serializeKdfProfileParams canonicalArgon2idV1 = .ok kdfParams) :
    parseKdfProfileParams kdfParams = .ok canonicalArgon2idV1 := by
  have hlen := length_of_serializeKdfProfileParams h
  exact parseKdfProfileParams_of_serialize h (by rw [hlen]; decide)

/-- Under an ideal cipher and derivation, a bundle opens to some items
exactly if an `export` under the same passphrase returned one that does, and
it is that one up to the encoding of its KDF parameters. -/
theorem authenticate_iff_exported {calls : ExportCall → Prop}
    (hideal : Authentic platform.cipher (BundleAsks platform passphrase bundle)
      fun s => ∃ call, calls call ∧ call.Makes platform s)
    (hapart : ExportKeysApart platform calls passphrase bundle) :
    authenticate platform bundle passphrase = .ok items
      ↔ ∃ call, calls call ∧ call.passphrase = passphrase ∧ ∃ s kdfParams exported,
        call.Makes platform s ∧ call.run platform = .ok exported
        ∧ authenticate platform exported passphrase = .ok items
        ∧ parseKdfProfileParams kdfParams = .ok canonicalArgon2idV1
        ∧ framedAs call kdfParams s = .ok bundle := by
  constructor
  · intro hopen
    have hsteps := hopen
    simp only [authenticate, bind_eq_ok, rejectIf_eq_ok, orErr_eq_ok] at hsteps
    obtain ⟨-, -, parsed, hparsed, kdfParams, hkdf, key, hkey, plaintext, hplain, -⟩ := hsteps
    obtain ⟨call, hcall, hmakes⟩ :=
      hideal _ ⟨parsed, kdfParams, key, hparsed, hkdf, hkey, rfl⟩ ⟨plaintext, hplain⟩
    obtain ⟨hversion, hwritten⟩ := serializeBundle_of_parse hparsed
    obtain ⟨hid, -⟩ := exportAad_inj hmakes.aad
    have hown := hmakes.key
    dsimp only at hown
    rw [← hid] at hown
    obtain ⟨rfl, hargon2⟩ := hapart call hcall parsed kdfParams key hparsed hkdf hkey hown
    have hcanonical : kdfParams = canonicalArgon2idV1 := by
      obtain ⟨tlvs, hblock⟩ := kdfBlock_of_parse hkdf
      obtain ⟨hprofile, hargon2Version, -⟩ := hblock.supported
      cases kdfParams
      simp only at hprofile hargon2 hargon2Version
      rw [hprofile, hargon2, hargon2Version]
      rfl
    subst hcanonical
    -- the same encryption fits behind the writer's parameters
    obtain ⟨kdf, hkdfWritten⟩ : ∃ x, serializeKdfProfileParams canonicalArgon2idV1
      = .ok x := ⟨_, rfl⟩
    have hkdfLen := length_of_serializeKdfProfileParams hkdfWritten
    have hshort : parsed.ciphertextAndTag.length < 2 ^ 32 := by
      simp only [serializeBundle, u32Len, bind_eq_ok, okOr_eq_ok, u32TryFrom_eq_some] at hwritten
      obtain ⟨-, -, -, -, len, hlen, -⟩ := hwritten
      rw [← hlen]
      exact len.toNat_lt
    rw [hid] at hwritten
    obtain ⟨exported, hexported⟩ := (exists_serializeBundle (List.Vector.toList_length parsed.nonce)
      (by omega : kdf.length < 2 ^ 32)).mpr hshort
    refine ⟨call, hcall, rfl, _, parsed.kdfParams, exported, hmakes,
      ExportCall.run_eq_ok.mpr ⟨_, kdf, hmakes, hkdfWritten, hexported⟩, ?_, hkdf, hwritten⟩
    obtain ⟨plaintext', hplain', -⟩ := hmakes.sealed
    rw [hmakes.authenticate_eq hplain' hkdf hwritten] at hopen
    rw [hmakes.authenticate_eq hplain' (parseKdfProfileParams_canonical hkdfWritten)
      hexported, hopen]
  · intro h
    obtain ⟨call, -, rfl, s, kdfParams, exported, hmakes, hrun, hopen, hkdf, hframed⟩ := h
    obtain ⟨s', kdf, hmakes', hwritten, hframed'⟩ := ExportCall.run_eq_ok.mp hrun
    obtain ⟨plaintext, hplain, -⟩ := hmakes.sealed
    rw [hmakes'.authenticate_eq hplain (parseKdfProfileParams_canonical hwritten) hframed'] at hopen
    rw [hmakes.authenticate_eq hplain hkdf hframed, hopen]

-- =============================================================== inhabited

/-- Of a bundle a call has made, only what the call made opens. -/
theorem ExportCall.Makes.authentic {call : ExportCall} {s : Sealing} {kdfParams : Bytes}
    (h : call.Makes platform s) (hkdf : parseKdfProfileParams kdfParams = .ok canonicalArgon2idV1)
    (hframed : framedAs call kdfParams s = .ok bundle) :
    Authentic platform.cipher (BundleAsks platform call.passphrase bundle)
      fun s => ∃ call', call' = call ∧ call'.Makes platform s := by
  intro s' hasks _
  obtain ⟨parsed, params, key, hparsed, hparams, hkey, rfl⟩ := hasks
  obtain rfl := Except.ok.inj (hparsed.symm.trans (parseBundle_of_serialize hframed))
  obtain rfl := Except.ok.inj (hparams.symm.trans hkdf)
  obtain rfl := Except.ok.inj (hkey.symm.trans h.key)
  refine ⟨call, rfl, ?_⟩
  rw [← h.aad]
  exact h

/-- The bundle of a vault of one item opens to what was exported. -/
theorem authenticate_iff_exported_of_sample :
    ∃ (call : ExportCall) (bundle : Bytes), call.run Platform.transparent = .ok bundle
      ∧ ∀ items, authenticate Platform.transparent bundle call.passphrase = .ok items
        ↔ ∃ call', call' = call ∧ call'.passphrase = call.passphrase ∧ ∃ s kdfParams exported,
          call'.Makes Platform.transparent s ∧ call'.run Platform.transparent = .ok exported
          ∧ authenticate Platform.transparent exported call.passphrase = .ok items
          ∧ parseKdfProfileParams kdfParams = .ok canonicalArgon2idV1
          ∧ framedAs call' kdfParams s = .ok bundle := by
  obtain ⟨st, calls, v, m, bytes, -, -, -, -, hfs, hstored, -, -, hitems⟩ :=
    sample_filled 1 (by decide)
  obtain ⟨bundle, hbundle, -⟩ := sample_exported hfs hstored (by decide) hitems
  let call : ExportCall := ⟨fun _ => IoFaults.none, some (List.Vector.replicate 24 0),
    v.session samplePath, samplePassword, st.fs⟩
  have hrun : call.run Platform.transparent = .ok bundle := hbundle
  obtain ⟨s, kdfParams, hmakes, hwritten, hframed⟩ := ExportCall.run_eq_ok.mp hrun
  have hkdf := parseKdfProfileParams_canonical hwritten
  refine ⟨call, bundle, hrun, fun items => authenticate_iff_exported
    (hmakes.authentic hkdf hframed) ?_⟩
  rintro call' rfl parsed params key hparsed hparams - -
  obtain rfl := Except.ok.inj (hparsed.symm.trans (parseBundle_of_serialize hframed))
  obtain rfl := Except.ok.inj (hparams.symm.trans hkdf)
  exact ⟨rfl, rfl⟩

end MeissnerSeal
