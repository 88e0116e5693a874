/-
What an ideal cipher promises: nothing opens that was not sealed.

# The promise

Of every key and every ciphertext it cannot hold, since the cipher seals
whatever it is handed. It is stated of the decryptions one run asks for,
against what was sealed before (`Authentic`): the run of an adversary's
file, and the log of the keys' owner.

# Associated data

The log tells its sealings apart by their associated data: the record
AAD is injective in everything it lays out (`aadBytes_inj`), and no
record AAD is as long as that of a table.
-/
import MeissnerSeal.Keys.Hierarchy

namespace MeissnerSeal

open ByteCodec ExceptRules

/-- A ciphertext with the key, nonce and associated data it is sealed or
opened under. -/
structure Sealing where
  key : Key
  nonce : Nonce
  aad : Bytes
  ciphertext : Bytes

/-- The decryption succeeds. -/
def Sealing.Opens (cipher : XChaCha20Poly1305) (s : Sealing) : Prop :=
  ∃ plaintext, decrypt cipher s.key s.nonce s.ciphertext s.aad = .ok plaintext

/-- Of what is asked for, only what was made opens. -/
def Authentic (cipher : XChaCha20Poly1305) (asked made : Sealing → Prop) : Prop :=
  ∀ s, asked s → s.Opens cipher → made s

/-- What was made, once more was made, still is. -/
theorem Authentic.mono {cipher : XChaCha20Poly1305} {asked asked' made made' : Sealing → Prop}
    (h : Authentic cipher asked made) (hasked : ∀ s, asked' s → asked s)
    (hmade : ∀ s, made s → made' s) : Authentic cipher asked' made' :=
  fun s hs hopens => hmade s (h s (hasked s hs) hopens)

-- ========================================================= associated data

/-- The record AAD is injective. -/
theorem aadBytes_inj {vaultId vaultId' recordId recordId' revisionId revisionId' : U8Array 16}
    {v v' s s' a a' k k' p p' kind kind' : UInt16}
    (h : aadBytes vaultId v s a k p recordId revisionId kind
      = aadBytes vaultId' v' s' a' k' p' recordId' revisionId' kind') :
    vaultId = vaultId' ∧ recordId = recordId' ∧ revisionId = revisionId' ∧ kind = kind' := by
  simp only [aadBytes, List.append_assoc] at h
  obtain ⟨hvault, h⟩ := array_append_inj (List.append_cancel_left h)
  obtain ⟨-, h⟩ := leU16_append_inj h
  obtain ⟨-, h⟩ := leU16_append_inj h
  obtain ⟨-, h⟩ := leU16_append_inj h
  obtain ⟨-, h⟩ := leU16_append_inj h
  obtain ⟨-, h⟩ := leU16_append_inj h
  obtain ⟨hrecord, h⟩ := array_append_inj h
  obtain ⟨hrevision, hkind⟩ := array_append_inj h
  exact ⟨hvault, hrecord, hrevision, leU16_inj hkind⟩

/-- A record AAD is not that of a table. -/
theorem toList_aad_ne_tableAad (aad : U8Array recordAadLen) (vaultId : U8Array 16)
    (schema : UInt16) : aad.toList ≠ vaultId.toList ++ leU16 schema := by
  intro h
  have hlen := congrArg List.length h
  rw [List.Vector.toList_length, List.length_append, List.Vector.toList_length,
    length_leU16] at hlen
  exact absurd hlen (by decide)

-- ============================================================== a platform

/-- The first bytes, zeros behind them where there are too few. -/
def packed (n : Nat) (bytes : Bytes) : U8Array n := ⟨resizeZero bytes n, length_resizeZero bytes n⟩

/-- A platform that tells keys apart: a tag is the head of its key, and
the derivations keep the cost, the head of the password and the tail of
what is hashed. -/
def Platform.keyed : Platform where
  cipher :=
    { encrypt := fun key _ msg _ => some (msg ++ key.toList.take tagLen)
      decrypt := fun key _ ciphertext _ =>
        if ciphertext.drop (ciphertext.length - tagLen) = key.toList.take tagLen then
          some (ciphertext.take (ciphertext.length - tagLen))
        else none
      decrypt_encrypt := by
        intro key _ msg _ ciphertext h
        rw [Option.some.injEq] at h
        have hlen : (key.toList.take tagLen).length = tagLen := by
          rw [List.length_take, List.Vector.toList_length]
          rfl
        rw [← h, List.length_append, hlen, Nat.add_sub_cancel, List.drop_left, List.take_left,
          if_pos rfl]
      length_encrypt := by
        intro key _ msg _ ciphertext h
        rw [Option.some.injEq] at h
        rw [← h, List.length_append, List.length_take, List.Vector.toList_length]
        rfl
      encrypt_isSome := fun _ _ _ _ _ => rfl }
  kdf :=
    { argon2id := fun password _ mCostKib tCost pLanes =>
        some (packed 32 (leU32 mCostKib ++ leU32 tCost ++ leU32 pLanes ++ password))
      sha256 := fun bytes => packed 32 bytes.reverse
      extract := fun salt ikm =>
        packed 32 (List.zipWith (· ^^^ ·) (resizeZero salt 32) (resizeZero ikm 32))
      expand := fun prk _ => some prk }

theorem Platform.keyed_total : Platform.keyed.kdf.Total where
  argon2id := fun _ _ _ _ _ => rfl
  expand := fun _ _ => rfl

/-- The cost and the head of the password stand in the tags of a
wrapping key. -/
theorem keyed_kek_take {password : Bytes} {vaultId : U8Array 16} {params : HeaderKdfParams}
    {kek : Key} (h : vaultKek Platform.keyed password vaultId params = .ok kek) :
    kek.toList.take tagLen = List.zipWith (· ^^^ ·) (vkekSaltDomainV1.take tagLen)
      ((leU32 params.argon2.mCostKib ++ leU32 params.argon2.tCost ++ leU32 params.argon2.pLanes
        ++ resizeZero password 20).take tagLen) := by
  simp only [vaultKek, deriveMasterUnlockKeyWithHeaderParams, derive, deriveVkek,
    expand, bind_eq_ok, orErr_eq_ok, rejectIf_eq_ok, okOr_eq_ok, Platform.keyed,
      Option.some.injEq] at h
  obtain ⟨muk, ⟨-, -, -, -, rfl⟩, rfl⟩ := h
  have hfull : ∀ {bytes : Bytes}, bytes.length = 32 → resizeZero bytes 32 = bytes := by
    intro bytes hlen
    rw [resizeZero_of_le (by omega), hlen, Nat.sub_self, List.replicate_zero, List.append_nil]
  have hdomain : vkekSaltDomainV1.length = 25 := by decide
  have htag : tagLen = 16 := rfl
  have hsalt : (resizeZero (vkekSaltDomainV1 ++ vaultId.toList) 32).take tagLen
      = vkekSaltDomainV1.take tagLen := by
    rw [resizeZero, List.take_append_of_le_length (by simp [hdomain, htag]), List.take_take,
      Nat.min_eq_left (by decide), List.take_append_of_le_length (by rw [hdomain, htag]; decide)]
  have hikm : resizeZero (leU32 params.argon2.mCostKib ++ leU32 params.argon2.tCost
        ++ leU32 params.argon2.pLanes ++ password) 32
      = leU32 params.argon2.mCostKib ++ leU32 params.argon2.tCost ++ leU32 params.argon2.pLanes
        ++ resizeZero password 20 := by
    have hlen : (leU32 params.argon2.mCostKib ++ leU32 params.argon2.tCost
        ++ leU32 params.argon2.pLanes).length = 12 := by simp
    generalize leU32 params.argon2.mCostKib ++ leU32 params.argon2.tCost
      ++ leU32 params.argon2.pLanes = cost at *
    rw [resizeZero, resizeZero, List.take_append, List.take_of_length_le (by omega),
      List.length_append, hlen, List.append_assoc]
    congr 3
    omega
  show (resizeZero (List.zipWith (· ^^^ ·) (resizeZero (vkekSaltDomainV1 ++ vaultId.toList) 32)
    (resizeZero (resizeZero (leU32 params.argon2.mCostKib ++ leU32 params.argon2.tCost
      ++ leU32 params.argon2.pLanes ++ password) 32) 32)) 32).take tagLen = _
  rw [hfull (length_resizeZero ..), hfull, List.take_zipWith, hsalt, hikm]
  rw [List.length_zipWith, length_resizeZero, length_resizeZero, Nat.min_self]

/-- Keys that open one ciphertext make one tag. -/
theorem keyed_take_of_opens {key key' : Key} {nonce : Nonce} {ciphertext aad : Bytes}
    {plaintext plaintext' : Bytes}
    (h : decrypt Platform.keyed.cipher key nonce ciphertext aad = .ok plaintext)
    (h' : decrypt Platform.keyed.cipher key' nonce ciphertext aad = .ok plaintext') :
    key.toList.take tagLen = key'.toList.take tagLen := by
  have htag : ∀ {k : Key} {msg : Bytes}, decrypt Platform.keyed.cipher k nonce ciphertext
    aad = .ok msg →
      ciphertext.drop (ciphertext.length - tagLen) = k.toList.take tagLen := by
    intro k msg hdec
    simp only [decrypt, Platform.keyed, bind_eq_ok, okOr_eq_ok,
      Option.ite_none_right_eq_some] at hdec
    obtain ⟨-, -, hsame, -⟩ := hdec
    exact hsame
  rw [← htag h, ← htag h']

/-- Wrapping keys that make one tag are derived at one cost, from passwords
that begin alike. -/
theorem keyed_kek_inj {password password' : Bytes} {vaultId vaultId' : U8Array 16}
    {params params' : HeaderKdfParams} {kek kek' : Key}
    (h : vaultKek Platform.keyed password vaultId params = .ok kek)
    (h' : vaultKek Platform.keyed password' vaultId' params' = .ok kek')
    (htag : kek.toList.take tagLen = kek'.toList.take tagLen) :
    params.argon2.mCostKib = params'.argon2.mCostKib
      ∧ (resizeZero password 20).take 4 = (resizeZero password' 20).take 4 := by
  have hcancel : ∀ {salt left right : Bytes}, left.length = salt.length →
    right.length = salt.length →
      List.zipWith (· ^^^ ·) salt left = List.zipWith (· ^^^ ·) salt right → left = right := by
    intro salt
    induction salt with
    | nil =>
        intro left right hleft hright _
        rw [List.length_eq_zero_iff.mp hleft, List.length_eq_zero_iff.mp hright]
    | cons b salt ih =>
        intro left right hleft hright hzip
        obtain ⟨c, left, rfl⟩ := List.exists_cons_of_length_eq_add_one hleft
        obtain ⟨d, right, rfl⟩ := List.exists_cons_of_length_eq_add_one hright
        rw [List.zipWith_cons_cons, List.zipWith_cons_cons] at hzip
        obtain ⟨hhead, htail⟩ := List.cons.inj hzip
        have hcd : c = d := by
          have hxor := congrArg (b ^^^ ·) hhead
          simpa [← UInt8.xor_assoc] using hxor
        rw [hcd, ih (Nat.succ.inj hleft) (Nat.succ.inj hright) htail]
  have hsplit : ∀ (m t p : UInt32) (password : Bytes),
      (leU32 m ++ leU32 t ++ leU32 p ++ resizeZero password 20).take tagLen
        = leU32 m ++ (leU32 t ++ leU32 p ++ (resizeZero password 20).take 4) := by
    intro m t p password
    simp only [List.take_append, List.append_assoc, length_leU32]
    rw [List.take_of_length_le (by rw [length_leU32]; decide),
      List.take_of_length_le (by rw [length_leU32]; decide),
      List.take_of_length_le (by rw [length_leU32]; decide)]
    rfl
  have hlen : ∀ (m t p : UInt32) (password : Bytes),
      (leU32 m ++ (leU32 t ++ leU32 p ++ (resizeZero password 20).take 4)).length
        = (vkekSaltDomainV1.take tagLen).length := by
    intro m t p password
    have hdomain : (vkekSaltDomainV1.take tagLen).length = 16 := by decide
    simp only [List.length_append, length_leU32, List.length_take, length_resizeZero, hdomain]
    rfl
  rw [keyed_kek_take h, keyed_kek_take h', hsplit, hsplit] at htag
  obtain ⟨hcost, hrest⟩ := leU32_append_inj (hcancel (hlen ..) (hlen ..) htag)
  simp only [List.append_assoc] at hrest
  obtain ⟨-, hrest⟩ := leU32_append_inj hrest
  obtain ⟨-, hpassword⟩ := leU32_append_inj hrest
  exact ⟨hcost, hpassword⟩

end MeissnerSeal
