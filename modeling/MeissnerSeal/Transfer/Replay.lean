/-
The replay store: which envelope identifiers have been accepted, and the
file it is kept in.

# The store

`SeenEnvelopeIds` cannot hold an identifier twice, nor an expiry of zero:
the insert rejects both, and so does the parser of the stored form, which
writes an absent expiry as zero. These are fields of the structure, so
every store there is has them.

# Persistence

`toBytes` writes any store; `fromBytes` reads it back exactly when the
store is within the parser's entry limit (`roundTrip_iff`). The insert
knows no such limit (`unreadable_store`).
-/
import MeissnerSeal.Error
import MeissnerSeal.Lib.ByteParser
import MeissnerSeal.Lib.ReplayWindow

namespace MeissnerSeal

open ByteCodec ExceptRules ByteParser ReplayWindow

-- ============================================================= protocol

/-- `Timestamp`: Unix time in milliseconds. -/
abbrev Timestamp := UInt64

/-- `EnvelopeId`. -/
abbrev EnvelopeId := U8Array 16

/-- `TransferError`. -/
inductive TransferError where
  | unknownProfile
  | expiredEnvelope
  | replayedEnvelopeId
  | transcriptMismatch
  | missingPqcCiphertext
  | algorithmMismatch
  | keyDerivationFailed
  | encryptionFailed
  | decryptionFailed
  | signingFailed
  | verificationFailed
  | untrustedSender
  | invalidEnvelopeId
  | transcriptHashUnavailable
  | malformedReplayStore
  | unimplemented
  | missingAnonymousRecipientPublicKey
  /-- No error of the crate: a generator that fails panics. -/
  | panic
  deriving DecidableEq, Repr

instance : ExceptRules.Panics TransferError := ⟨.panic⟩

/-- `core::result::Result<T, TransferError>`. -/
abbrev TransferRes (α : Type) := Except TransferError α

instance : Preorder Timestamp where
  le_refl := UInt64.le_refl
  le_trans _ _ _ := UInt64.le_trans
  lt_iff_le_not_ge a b := by
    rw [UInt64.lt_iff_toNat_lt, UInt64.le_iff_toNat_le, UInt64.le_iff_toNat_le]
    omega

/-- `expires_at.is_some_and(|expires| expires <= now)`. -/
def isExpired (now : Timestamp) (expiresAt : Option Timestamp) : Bool :=
  expiresAt.any fun expires => expires ≤ now

theorem isExpired_iff {now : Timestamp} {expiresAt : Option Timestamp} :
    isExpired now expiresAt = true ↔ Expired now expiresAt := by
  cases expiresAt with
  | none => simp [isExpired, Expired]
  | some expires => simp [isExpired, Expired]

theorem not_isExpired_iff {now : Timestamp} {expiresAt : Option Timestamp} :
    isExpired now expiresAt = false ↔ ¬ Expired now expiresAt := by
  rw [← isExpired_iff, Bool.not_eq_true]

/-- An expiry of zero is always past. -/
theorem ne_zero_of_not_isExpired {now : Timestamp} {expiresAt : Option Timestamp}
    (h : isExpired now expiresAt = false) : expiresAt ≠ some 0 := by
  rintro rfl
  have hpast : isExpired now (some 0) = true := by simp [isExpired]
  rw [hpast] at h
  cases h

-- ================================================================ store

/-- `SeenEnvelopeIds`. -/
@[ext] structure SeenEnvelopeIds where
  entries : List (EnvelopeId × Option Timestamp)
  nodup : (entries.map Prod.fst).Nodup
  expiry_ne_zero : ∀ entry ∈ entries, entry.2 ≠ some 0
  deriving DecidableEq

namespace SeenEnvelopeIds

/-- `SeenEnvelopeIds::new`. -/
def new : SeenEnvelopeIds where
  entries := []
  nodup := List.nodup_nil
  expiry_ne_zero _ h := nomatch h

/-- The identifiers held. -/
def ids (seen : SeenEnvelopeIds) : List EnvelopeId := seen.entries.map Prod.fst

/-- `self.entries.push((id, expires_at))`. -/
def push (seen : SeenEnvelopeIds) (id : EnvelopeId) (expiresAt : Option Timestamp)
    (hid : id ∉ seen.ids) (hexpiry : expiresAt ≠ some 0) : SeenEnvelopeIds where
  entries := seen.entries ++ [(id, expiresAt)]
  nodup := by
    rw [List.map_append, List.nodup_append]
    refine ⟨seen.nodup, List.nodup_singleton _, fun x hx y hy => ?_⟩
    rw [List.map_singleton, List.mem_singleton] at hy
    rw [hy]
    rintro rfl
    exact hid hx
  expiry_ne_zero entry h := by
    rcases List.mem_append.mp h with hold | hnew
    · exact seen.expiry_ne_zero entry hold
    · rw [List.mem_singleton.mp hnew]
      exact hexpiry

/-- `evict_expired`, at the clock reading `now`. -/
def evictExpired (now : Timestamp) (seen : SeenEnvelopeIds) : SeenEnvelopeIds where
  entries := seen.entries.filter fun entry => !isExpired now entry.2
  nodup := seen.nodup.sublist (List.filter_sublist.map Prod.fst)
  expiry_ne_zero entry h := seen.expiry_ne_zero entry (List.mem_of_mem_filter h)

/-- `check_and_insert`. The first clock reading is that of the eviction. -/
def checkAndInsert (evictNow now : Timestamp) (id : EnvelopeId) (expiresAt : Option Timestamp)
    (seen : SeenEnvelopeIds) : TransferRes Unit × SeenEnvelopeIds :=
  let seen := seen.evictExpired evictNow
  match hexpired : isExpired now expiresAt with
  | true => (.error .expiredEnvelope, seen)
  | false =>
      if hseen : id ∈ seen.ids then (.error .replayedEnvelopeId, seen)
      else (.ok (), seen.push id expiresAt hseen (ne_zero_of_not_isExpired hexpired))

-- =============================================================== stored form

/-- `MAX_REPLAY_ENTRIES`. -/
def maxReplayEntries : UInt32 := 65536

/-- One entry of the stored form. -/
def entryBytes (entry : EnvelopeId × Option Timestamp) : Bytes :=
  entry.1.toList ++ leU64 (entry.2.getD 0)

/-- `to_bytes`. -/
def toBytes (seen : SeenEnvelopeIds) : Bytes :=
  leU32 ((u32TryFrom seen.entries.length).getD 0xffffffff) ++ seen.entries.flatMap entryBytes

/-- `match millis { 0 => None, millis => Some(millis) }`. -/
def expiryOfMillis (millis : UInt64) : Option Timestamp := if millis = 0 then none else some millis

theorem expiryOfMillis_ne_zero (millis : UInt64) : expiryOfMillis millis ≠ some 0 := by
  unfold expiryOfMillis
  split
  · exact fun h => nomatch h
  case isFalse h => exact fun h' => h (Option.some.inj h')

/-- The entry loop of `from_bytes`; `seen_ids` is the set of identifiers
of the entries so far. -/
def takeEntries : Nat → SeenEnvelopeIds → ByteParser TransferError SeenEnvelopeIds
  | 0, entries => pure entries
  | count + 1, entries => do
      let id ← takeArray .malformedReplayStore 16
      let millis ← takeU64Le .malformedReplayStore
      if hseen : id ∈ entries.ids then throw .malformedReplayStore else
        takeEntries count
          (entries.push id (expiryOfMillis millis) hseen (expiryOfMillis_ne_zero millis))

/-- The body of `from_bytes` up to its last check. -/
def parseStore : ByteParser TransferError SeenEnvelopeIds := do
  let count ← takeU32Le .malformedReplayStore
  guardNot (count > maxReplayEntries) .malformedReplayStore
  takeEntries count.toNat new

/-- `from_bytes`. -/
def fromBytes (bytes : Bytes) : TransferRes SeenEnvelopeIds := do
  let (entries, rest) ← parseStore bytes
  rejectIf (rest ≠ []) .malformedReplayStore
  return entries

-- =================================================== what the operations do

variable {seen : SeenEnvelopeIds} {evictNow now : Timestamp} {id : EnvelopeId}
  {expiresAt : Option Timestamp}

theorem mem_evictExpired {entry : EnvelopeId × Option Timestamp} :
    entry ∈ (seen.evictExpired now).entries ↔ entry ∈ seen.entries ∧ ¬ Expired now entry.2 := by
  rw [evictExpired, List.mem_filter, Bool.not_eq_true', not_isExpired_iff]

/-- Of two evictions, only the later matters. -/
theorem evictExpired_evictExpired {later : Timestamp} (seen : SeenEnvelopeIds) (hle : now ≤ later) :
    (seen.evictExpired now).evictExpired later = seen.evictExpired later := by
  refine SeenEnvelopeIds.ext ?_
  simp only [evictExpired, List.filter_filter]
  refine List.filter_congr fun entry _ => ?_
  cases hlater : isExpired later entry.2 with
  | true => rfl
  | false =>
      have hlive : isExpired now entry.2 = false :=
        not_isExpired_iff.mpr fun h => not_isExpired_iff.mp hlater (h.mono hle)
      rw [hlive]
      rfl

/-- What an insert can do: reject and evict, or evict and insert. -/
theorem checkAndInsert_cases (seen : SeenEnvelopeIds) (evictNow now : Timestamp) (id : EnvelopeId)
    (expiresAt : Option Timestamp) :
    (∃ e, checkAndInsert evictNow now id expiresAt seen = (.error e, seen.evictExpired evictNow)
        ∧ ((e = .expiredEnvelope ∧ Expired now expiresAt)
          ∨ (e = .replayedEnvelopeId ∧ ¬ Expired now expiresAt
            ∧ id ∈ (seen.evictExpired evictNow).ids)))
      ∨ ∃ seen', checkAndInsert evictNow now id expiresAt seen = (.ok (), seen')
        ∧ ¬ Expired now expiresAt ∧ id ∉ (seen.evictExpired evictNow).ids
        ∧ seen'.entries = (seen.evictExpired evictNow).entries ++ [(id, expiresAt)] := by
  unfold checkAndInsert
  split
  case h_1 hexpired => exact .inl ⟨_, rfl, .inl ⟨rfl, isExpired_iff.mp hexpired⟩⟩
  case h_2 hexpired =>
      have hlive := not_isExpired_iff.mp hexpired
      by_cases hseen : id ∈ (seen.evictExpired evictNow).ids
      · exact .inl ⟨_, dif_pos hseen, .inr ⟨rfl, hlive, hseen⟩⟩
      · exact .inr ⟨_, dif_neg hseen, hlive, hseen, rfl⟩

theorem mem_ids_of_evictExpired (h : id ∈ (seen.evictExpired now).ids) : id ∈ seen.ids := by
  obtain ⟨entry, hentry, hid⟩ := List.mem_map.mp h
  exact List.mem_map.mpr ⟨entry, (mem_evictExpired.mp hentry).1, hid⟩

/-- A store that remembers keeps remembering through an eviction. -/
theorem remembers_evictExpired {log : List (Acceptance EnvelopeId Timestamp)}
    (h : Remembers log now seen.entries) (hle : now ≤ evictNow) :
    Remembers log evictNow (seen.evictExpired evictNow).entries :=
  h.evict hle fun _ hmem hlive => mem_evictExpired.mpr ⟨hmem, hlive⟩

-- ============================================================ round trip

/-- Written millis read back. -/
theorem expiryOfMillis_getD (h : expiresAt ≠ some 0) :
    expiryOfMillis (expiresAt.getD 0) = expiresAt := by
  cases expiresAt with
  | none => rfl
  | some millis =>
      have hne : millis ≠ 0 := fun h0 => h (by rw [h0])
      rw [Option.getD_some, expiryOfMillis, if_neg hne]

/-- The entry loop over written entries. -/
theorem reads_takeEntries (start : SeenEnvelopeIds) :
    ∀ {rest : List (EnvelopeId × Option Timestamp)} {seen : SeenEnvelopeIds},
      seen.entries = start.entries ++ rest →
      Reads (takeEntries rest.length start) (rest.flatMap entryBytes) seen := by
  intro rest
  induction rest generalizing start with
  | nil =>
      intro seen hseen
      rw [List.append_nil] at hseen
      rw [SeenEnvelopeIds.ext hseen]
      exact Reads.pure start
  | cons entry rest ih =>
      intro seen hseen
      obtain ⟨id, expiresAt⟩ := entry
      have hnew : id ∉ start.ids := by
        have hnodup := seen.nodup
        rw [hseen, List.map_append, List.nodup_append] at hnodup
        intro hmem
        exact hnodup.2.2 id hmem id (List.mem_cons_self ..) rfl
      have hexpiry : expiresAt ≠ some 0 := by
        refine seen.expiry_ne_zero (id, expiresAt) ?_
        rw [hseen]
        exact List.mem_append_right _ (List.mem_cons_self ..)
      rw [List.flatMap_cons, entryBytes, List.append_assoc]
      refine (reads_takeArray TransferError.malformedReplayStore id).bind ?_
      refine (reads_takeU64Le TransferError.malformedReplayStore (expiresAt.getD 0)).bind ?_
      rw [dif_neg hnew]
      refine ih _ ?_
      show seen.entries = (start.entries ++ [(id, expiryOfMillis (expiresAt.getD 0))]) ++ rest
      rw [expiryOfMillis_getD hexpiry, hseen, List.append_assoc, List.singleton_append]

/-- The count field of a stored form. -/
theorem fromBytes_of_count (count : UInt32) (body : Bytes) (h : count > maxReplayEntries) :
    fromBytes (leU32 count ++ body) = .error .malformedReplayStore := by
  have hcount := reads_takeU32Le TransferError.malformedReplayStore count body
  rw [fromBytes, parseStore, bind_apply, hcount, ok_bind, bind_apply]
  simp only [guardNot, rejectIf_pos _ h]
  rfl

/-- A store reads back from its stored form, as long as the parser's limit
allows its entries. -/
theorem fromBytes_toBytes (seen : SeenEnvelopeIds) :
    fromBytes seen.toBytes
      = if seen.entries.length ≤ 65536 then .ok seen else .error .malformedReplayStore := by
  have hmax : maxReplayEntries.toNat = 65536 := rfl
  by_cases hlen : seen.entries.length ≤ 65536
  · rw [if_pos hlen]
    have hfits : seen.entries.length < 2 ^ 32 := by omega
    have hnat := toNat_u32_ofNat hfits
    have hle : ¬ UInt32.ofNat seen.entries.length > maxReplayEntries := by
      intro h
      have hlt := UInt32.lt_iff_toNat_lt.mp h
      omega
    have hreads : Reads parseStore seen.toBytes seen := by
      rw [toBytes, u32TryFrom_of_lt hfits, Option.getD_some]
      refine (reads_takeU32Le TransferError.malformedReplayStore _).bind ?_
      refine Reads.guardNot hle ?_
      rw [hnat]
      exact reads_takeEntries new rfl
    rw [fromBytes, hreads.run]
    rfl
  · rw [if_neg hlen]
    have hcount : (u32TryFrom seen.entries.length).getD 0xffffffff > maxReplayEntries := by
      by_cases hfits : seen.entries.length < 2 ^ 32
      · rw [u32TryFrom_of_lt hfits, Option.getD_some]
        refine UInt32.lt_iff_toNat_lt.mpr ?_
        rw [toNat_u32_ofNat hfits, hmax]
        omega
      · rw [u32TryFrom, if_neg hfits]
        decide
    rw [toBytes, fromBytes_of_count _ _ hcount]

theorem roundTrip_iff (seen : SeenEnvelopeIds) :
    fromBytes seen.toBytes = .ok seen ↔ seen.entries.length ≤ 65536 := by
  rw [fromBytes_toBytes]
  by_cases hlen : seen.entries.length ≤ 65536
  · rw [if_pos hlen]
    exact ⟨fun _ => hlen, fun _ => rfl⟩
  · rw [if_neg hlen]
    exact ⟨fun h => (nomatch h), fun h => absurd h hlen⟩

/-- A stored form reads back as the store written or not at all. -/
theorem eq_of_fromBytes_toBytes {seen' : SeenEnvelopeIds} (h : fromBytes seen.toBytes = .ok seen') :
    seen' = seen := by
  rw [fromBytes_toBytes] at h
  split at h
  · exact (Except.ok.inj h).symm
  · cases h

/-- What the entry loop has read. -/
theorem takeEntries_eq_ok {count : Nat} {start : SeenEnvelopeIds} {bytes rest : Bytes}
    (h : takeEntries count start bytes = .ok (seen, rest)) :
    ∃ added, seen.entries = start.entries ++ added ∧ added.length = count
      ∧ bytes = added.flatMap entryBytes ++ rest := by
  induction count generalizing start bytes with
  | zero =>
      rw [takeEntries, pure_apply, Except.ok.injEq, Prod.mk.injEq] at h
      exact ⟨[], by rw [h.1, List.append_nil], rfl, h.2⟩
  | succ count ih =>
      unfold takeEntries at h
      obtain ⟨id, mid, hbytes, h⟩ := (consumes_takeArray _ 16).peel h
      obtain ⟨millis, mid', hmid, h⟩ := (consumes_takeU64Le _).peel h
      by_cases hseen : id ∈ start.ids
      · rw [dif_pos hseen] at h
        cases h
      · rw [dif_neg hseen] at h
        obtain ⟨added, hentries, hlen, hmid'⟩ := ih h
        have hmillis : (expiryOfMillis millis).getD 0 = millis := by
          unfold expiryOfMillis
          split
          case isTrue hzero => rw [hzero]; rfl
          case isFalse => rfl
        refine ⟨(id, expiryOfMillis millis) :: added, ?_, by rw [List.length_cons, hlen], ?_⟩
        · rw [hentries]
          show (start.entries ++ [(id, expiryOfMillis millis)]) ++ added = _
          rw [List.append_assoc, List.singleton_append]
        · rw [hbytes, hmid, hmid', List.flatMap_cons, entryBytes, hmillis, List.append_assoc,
            List.append_assoc]

/-- What is read is a stored form, of a store within the limit. -/
theorem toBytes_of_fromBytes {bytes : Bytes} (h : fromBytes bytes = .ok seen) :
    seen.toBytes = bytes ∧ seen.entries.length ≤ 65536 := by
  simp only [fromBytes, bind_eq_ok, rejectIf_eq_ok, not_not, pure_eq_ok, Except.ok.injEq] at h
  obtain ⟨⟨parsed, rest⟩, h, -, hrest, hparsed⟩ := h
  replace hrest : rest = [] := hrest
  replace hparsed : parsed = seen := hparsed
  subst hparsed hrest
  unfold parseStore at h
  obtain ⟨count, mid, hbytes, h⟩ := (consumes_takeU32Le _).peel h
  obtain ⟨hcount, h⟩ := guardNot_peel h
  obtain ⟨added, hentries, hlen, hmid⟩ := takeEntries_eq_ok h
  have hle : count.toNat ≤ 65536 := by
    have hmax : maxReplayEntries.toNat = 65536 := rfl
    have hnot : ¬ maxReplayEntries.toNat < count.toNat := fun hlt =>
      hcount (UInt32.lt_iff_toNat_lt.mpr hlt)
    omega
  replace hentries : parsed.entries = added := hentries
  rw [toBytes, hentries, hlen, u32TryFrom_of_lt (by omega), Option.getD_some, UInt32.ofNat_toNat,
    hbytes, hmid, List.append_nil]
  exact ⟨rfl, hle⟩

theorem length_toBytes (seen : SeenEnvelopeIds) :
    seen.toBytes.length = 4 + 24 * seen.entries.length := by
  have hentries : ∀ entries : List (EnvelopeId × Option Timestamp),
      (entries.flatMap entryBytes).length = 24 * entries.length := by
    intro entries
    induction entries with
    | nil => rfl
    | cons entry entries ih =>
        rw [List.flatMap_cons, List.length_append, ih, entryBytes, List.length_append,
          List.Vector.toList_length, length_leU64, List.length_cons]
        omega
  rw [toBytes, List.length_append, length_leU32, hentries]

/-- Of a stored form cut short, nothing is read but all of it. -/
theorem eq_of_fromBytes_take {seen' : SeenEnvelopeIds} {n : Nat}
    (h : fromBytes (seen.toBytes.take n) = .ok seen') : seen' = seen := by
  obtain ⟨hbytes, hlimit⟩ := toBytes_of_fromBytes h
  have hlen := length_toBytes seen'
  have hlen' := length_toBytes seen
  have hcut := congrArg List.length hbytes
  rw [List.length_take] at hcut
  -- the count survives the cut, and it tells the length
  have hcount := congrArg (List.take 4) hbytes
  rw [List.take_take, Nat.min_eq_left (by omega), toBytes, toBytes,
    List.take_left' (length_leU32 _), List.take_left' (length_leU32 _),
    u32TryFrom_of_lt (by omega), Option.getD_some] at hcount
  have hsame := congrArg UInt32.toNat (leU32_inj hcount)
  rw [toNat_u32_ofNat (by omega)] at hsame
  have hentries : seen.entries.length = seen'.entries.length := by
    by_cases hfits : seen.entries.length < 2 ^ 32
    · rw [u32TryFrom_of_lt hfits, Option.getD_some, toNat_u32_ofNat hfits] at hsame
      exact hsame.symm
    · rw [u32TryFrom, if_neg hfits] at hsame
      have hmax : (0xffffffff : UInt32).toNat = 4294967295 := rfl
      rw [Option.getD_none, hmax] at hsame
      omega
  rw [List.take_of_length_le (by omega)] at h
  exact eq_of_fromBytes_toBytes h

-- ========================================================= reachable stores

/-- The stores inserts and reloads lead to, with the last clock reading. -/
inductive Reached : Timestamp → SeenEnvelopeIds → Prop where
  | new (clock : Timestamp) : Reached clock new
  | inserted {clock evictNow now : Timestamp} {seen : SeenEnvelopeIds} (h : Reached clock seen)
      (hevict : clock ≤ evictNow) (hnow : evictNow ≤ now) (id : EnvelopeId)
      (expiresAt : Option Timestamp) :
      Reached now (checkAndInsert evictNow now id expiresAt seen).2
  | reloaded {clock : Timestamp} {seen seen' : SeenEnvelopeIds} {bytes : Bytes}
      (h : Reached clock seen) (hbytes : fromBytes bytes = .ok seen') : Reached clock seen'

/-- A reachable store survives saving and reloading exactly when it holds
at most `MAX_REPLAY_ENTRIES` entries. -/
theorem reload_eq_iff {clock : Timestamp} (_h : Reached clock seen) :
    fromBytes seen.toBytes = .ok seen ↔ seen.entries.length ≤ maxReplayEntries.toNat :=
  roundTrip_iff seen

/-- Any number of identifiers that never expire. -/
theorem exists_reached (n : Nat) (hn : n < 2 ^ 32) :
    ∃ seen, Reached 0 seen ∧ seen.entries = (List.range n).map fun i => (numberedId i, none) := by
  induction n with
  | zero => exact ⟨new, .new 0, rfl⟩
  | succ n ih =>
      obtain ⟨seen, hseen, hentries⟩ := ih (by omega)
      have hkeep : (seen.evictExpired 0).entries = seen.entries := by
        rw [evictExpired, List.filter_eq_self, hentries]
        intro entry hentry
        obtain ⟨i, -, rfl⟩ := List.mem_map.mp hentry
        rfl
      have hlive : ¬ Expired (0 : Timestamp) none := fun ⟨_, h, _⟩ => nomatch h
      have hnew : numberedId n ∉ seen.ids := by
        rw [ids, hentries]
        intro hmem
        obtain ⟨entry, hentry, hid⟩ := List.mem_map.mp hmem
        obtain ⟨i, hi, rfl⟩ := List.mem_map.mp hentry
        have hlt := List.mem_range.mp hi
        have hsame := numberedId_inj (by omega) (by omega) hid
        omega
      have hnext := hseen.inserted (UInt64.le_refl 0) (UInt64.le_refl 0) (numberedId n) none
      rcases checkAndInsert_cases seen 0 0 (numberedId n) none with
        ⟨e, -, ⟨-, hexpired⟩ | ⟨-, -, hmem⟩⟩ | ⟨seen', hrun, -, -, hentries'⟩
      · exact absurd hexpired hlive
      · rw [ids, hkeep] at hmem
        exact absurd hmem hnew
      · rw [hrun] at hnext
        refine ⟨seen', hnext, ?_⟩
        rw [hentries', hkeep, hentries, List.range_succ, List.map_append]
        rfl

/-- One insert, saved and reloaded. -/
theorem reload_eq_iff_of_one :
    ∃ seen, Reached 0 seen ∧ seen.entries = [(numberedId 0, none)]
      ∧ fromBytes seen.toBytes = .ok seen := by
  obtain ⟨seen, hseen, hentries⟩ := exists_reached 1 (by decide)
  refine ⟨seen, hseen, hentries, (reload_eq_iff hseen).mpr ?_⟩
  rw [hentries]
  decide

/-- After 65537 inserts, the store is saved and never loaded again. -/
theorem unreadable_store :
    ∃ seen, Reached 0 seen ∧ seen.entries = (List.range 65537).map (fun i => (numberedId i, none))
      ∧ fromBytes seen.toBytes = .error .malformedReplayStore := by
  obtain ⟨seen, hseen, hentries⟩ := exists_reached 65537 (by decide)
  have hlen : seen.entries.length = 65537 := by rw [hentries, List.length_map, List.length_range]
  refine ⟨seen, hseen, hentries, ?_⟩
  rw [toBytes, hlen]
  exact fromBytes_of_count _ _ (by decide)

end SeenEnvelopeIds

end MeissnerSeal
