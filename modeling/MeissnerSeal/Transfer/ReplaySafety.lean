/-
The replay store over whole runs: openings, saves and reloads in any
order.

# A receiver

`ReceiverRun` collects what a receiver does with one store: it opens, saves
and reloads, in any order. An image stands for the store until the next
envelope is accepted. Nothing in an image says how old it is, so which ones
are loaded is the caller's to see to: the runs have it as a rule, any image
(`Receiver.AnyImage`) or a current one (`Receiver.CurrentImage`).

# Results

Where only current images are loaded, what was accepted and has not expired
is always held, in the store and in those images, so nothing is accepted
twice (`no_replay`). An older image forgets an acceptance, and the envelope
is accepted again (`replay_of_stale_image`). An opening that fails changes
nothing that matters later (`failed_open_keeps_store`).
-/
import MeissnerSeal.Keys.Device

namespace MeissnerSeal

open ByteCodec ExceptRules ReplayWindow

-- ========================================================== failed openings

/-- A failed opening leaves the store as it was unless the sender's
signature was verified and the store itself refused; then it drops
expired entries and no others. -/
theorem failed_open_keeps_store (platform : TransferPlatform) (clock : OpenClock)
    (envelope : TransferEnvelope) (params : OpenEnvelopeParams) (seen : SeenEnvelopeIds) :
    (∀ e, authenticateEnvelope platform clock.validate envelope params = .error e →
      openEnvelope platform clock envelope params seen = (.error e, seen))
    ∧ ∀ e seen', openEnvelope platform clock envelope params seen = (.error e, seen') →
      (e ≠ .expiredEnvelope → e ≠ .replayedEnvelopeId → seen' = seen)
      ∧ ∀ now, clock.evict ≤ now → seen'.evictExpired now = seen.evictExpired now := by
  constructor
  · intro e he
    rw [openEnvelope, he]
  · intro e seen' hopen
    rcases openEnvelope_cases platform clock envelope params seen with
      ⟨e', -, hrun⟩ | ⟨payload, e', -, hrun, hwhy⟩ | ⟨payload, seen'', -, hrun, -⟩
    · rw [hrun] at hopen
      obtain ⟨-, rfl⟩ := Prod.mk.inj hopen
      exact ⟨fun _ _ => rfl, fun _ _ => rfl⟩
    · rw [hrun] at hopen
      obtain ⟨he, rfl⟩ := Prod.mk.inj hopen
      obtain rfl := Except.error.inj he
      refine ⟨fun hexpired hreplayed => ?_, fun now hle => seen.evictExpired_evictExpired hle⟩
      rcases hwhy with ⟨h, -⟩ | ⟨h, -⟩
      · exact absurd h hexpired
      · exact absurd h hreplayed
    · rw [hrun] at hopen
      cases hopen

-- ==================================================================== runs

/-- A receiver: the store in memory, the images of it on disk, those saved
since the last acceptance apart from the older ones, and the last reading
of the clock. -/
structure Receiver where
  seen : SeenEnvelopeIds
  current : List Bytes
  stale : List Bytes
  clock : Timestamp

/-- A receiver that has saved nothing. -/
def Receiver.started (clock : Timestamp) : Receiver := ⟨.new, [], [], clock⟩

/-- An acceptance: every image there is is now older than the store. -/
def Receiver.accept (r : Receiver) (seen : SeenEnvelopeIds) (clock : Timestamp) : Receiver :=
  ⟨seen, [], r.current ++ r.stale, clock⟩

def Receiver.refuse (r : Receiver) (seen : SeenEnvelopeIds) (clock : Timestamp) : Receiver :=
  { r with seen, clock }

def Receiver.save (r : Receiver) : Receiver :=
  { r with current := r.seen.toBytes :: r.current }

def Receiver.reload (r : Receiver) (seen : SeenEnvelopeIds) : Receiver := { r with seen }

/-- Any image it has saved. -/
def Receiver.AnyImage (r : Receiver) (image : Bytes) : Prop :=
  image ∈ r.current ∨ image ∈ r.stale

/-- An image saved since the last acceptance. -/
def Receiver.CurrentImage (r : Receiver) (image : Bytes) : Prop := image ∈ r.current

/-- The runs of a receiver, with what they accepted, oldest first. Which of
its images it reloads is the caller's affair, and a rule here. -/
inductive ReceiverRun (platform : TransferPlatform) (Reloads : Receiver → Bytes → Prop) :
    Receiver → List (Acceptance EnvelopeId Timestamp) → Prop where
  | started (clock : Timestamp) : ReceiverRun platform Reloads (.started clock) []
  | accepted {r : Receiver} {log : List (Acceptance EnvelopeId Timestamp)} {clock : OpenClock}
      {envelope : TransferEnvelope} {params : OpenEnvelopeParams} {payload : Bytes}
      {seen : SeenEnvelopeIds} (h : ReceiverRun platform Reloads r log)
      (hfirst : r.clock ≤ clock.validate) (hclock : clock.Monotone)
      (hopen : openEnvelope platform clock envelope params r.seen = (.ok payload, seen)) :
      ReceiverRun platform Reloads (r.accept seen clock.insert)
        (log ++ [⟨envelope.envelopeId, envelope.expiresAt, clock.insert⟩])
  | refused {r : Receiver} {log : List (Acceptance EnvelopeId Timestamp)} {clock : OpenClock}
      {envelope : TransferEnvelope} {params : OpenEnvelopeParams} {e : TransferError}
      {seen : SeenEnvelopeIds} (h : ReceiverRun platform Reloads r log)
      (hfirst : r.clock ≤ clock.validate) (hclock : clock.Monotone)
      (hopen : openEnvelope platform clock envelope params r.seen = (.error e, seen)) :
      ReceiverRun platform Reloads (r.refuse seen clock.insert) log
  | saved {r : Receiver} {log : List (Acceptance EnvelopeId Timestamp)}
      (h : ReceiverRun platform Reloads r log) : ReceiverRun platform Reloads r.save log
  | reloaded {r : Receiver} {log : List (Acceptance EnvelopeId Timestamp)} {image : Bytes}
      {seen : SeenEnvelopeIds} (h : ReceiverRun platform Reloads r log)
      (himage : Reloads r image) (hparse : SeenEnvelopeIds.fromBytes image = .ok seen) :
      ReceiverRun platform Reloads (r.reload seen) log

/-- What holds of a receiver and what it has accepted. -/
structure Receiver.Holds (r : Receiver) (log : List (Acceptance EnvelopeId Timestamp)) :
    Prop where
  seen : Remembers log r.clock r.seen.entries
  current : ∀ bytes ∈ r.current,
    ∃ image : SeenEnvelopeIds, bytes = image.toBytes ∧ Remembers log r.clock image.entries
  noReplay : NoReplay log
  live : ∀ a ∈ log, ¬ Expired a.time a.expiry

variable {platform : TransferPlatform} {r : Receiver}
  {log : List (Acceptance EnvelopeId Timestamp)}

theorem OpenClock.Monotone.le {clock : OpenClock} (h : clock.Monotone) :
    clock.validate ≤ clock.insert := le_trans h.evict h.insert

/-- A refusal keeps what is held. -/
theorem Receiver.Holds.refuse {clock : OpenClock} {envelope : TransferEnvelope}
    {params : OpenEnvelopeParams} {e : TransferError} {seen : SeenEnvelopeIds} (h : r.Holds log)
    (hfirst : r.clock ≤ clock.validate) (hclock : clock.Monotone)
    (hopen : openEnvelope platform clock envelope params r.seen = (.error e, seen)) :
    (r.refuse seen clock.insert).Holds log := by
  have hle : r.clock ≤ clock.insert := le_trans hfirst hclock.le
  refine ⟨?_, fun bytes hbytes => ?_, h.noReplay, h.live⟩
  · rcases openEnvelope_cases platform clock envelope params r.seen with
      ⟨e', -, hrun⟩ | ⟨payload, e', -, hrun, -⟩ | ⟨payload, seen', -, hrun, -⟩
    · rw [hrun] at hopen
      obtain ⟨-, rfl⟩ := Prod.mk.inj hopen
      exact h.seen.mono hle
    · rw [hrun] at hopen
      obtain ⟨-, rfl⟩ := Prod.mk.inj hopen
      have hevicted := SeenEnvelopeIds.remembers_evictExpired h.seen (le_trans hfirst hclock.evict)
      exact hevicted.mono hclock.insert
    · rw [hrun] at hopen
      cases hopen
  · obtain ⟨image, himage, hremembers⟩ := h.current bytes hbytes
    exact ⟨image, himage, hremembers.mono hle⟩

/-- An acceptance is no replay, and is held from then on. -/
theorem Receiver.Holds.accept {clock : OpenClock} {envelope : TransferEnvelope}
    {params : OpenEnvelopeParams} {payload : Bytes} {seen : SeenEnvelopeIds} (h : r.Holds log)
    (hfirst : r.clock ≤ clock.validate) (hclock : clock.Monotone)
    (hopen : openEnvelope platform clock envelope params r.seen = (.ok payload, seen)) :
    (r.accept seen clock.insert).Holds
      (log ++ [⟨envelope.envelopeId, envelope.expiresAt, clock.insert⟩]) := by
  obtain ⟨hlive, hnew, hentries⟩ := accepted_of_open hopen
  have hevicted := SeenEnvelopeIds.remembers_evictExpired h.seen (le_trans hfirst hclock.evict)
  -- no image stands for the new store yet
  refine ⟨?_, fun bytes hbytes => absurd hbytes List.not_mem_nil,
    h.noReplay.accept hevicted hnew hclock.insert, fun a ha => ?_⟩
  · show Remembers _ clock.insert seen.entries
    rw [hentries]
    exact (hevicted.mono hclock.insert).accept
      ⟨envelope.envelopeId, envelope.expiresAt, clock.insert⟩
  · rcases List.mem_append.mp ha with ha | ha
    · exact h.live a ha
    · rw [List.mem_singleton.mp ha]
      exact hlive

theorem Receiver.Holds.save (h : r.Holds log) : r.save.Holds log := by
  refine ⟨h.seen, fun bytes hbytes => ?_, h.noReplay, h.live⟩
  rcases List.mem_cons.mp hbytes with rfl | hold
  · exact ⟨r.seen, rfl, h.seen⟩
  · exact h.current bytes hold

/-- A current image reads back as a store that holds as much. -/
theorem Receiver.Holds.reload {image : Bytes} {seen : SeenEnvelopeIds} (h : r.Holds log)
    (himage : r.CurrentImage image) (hparse : SeenEnvelopeIds.fromBytes image = .ok seen) :
    (r.reload seen).Holds log := by
  obtain ⟨stored, rfl, hremembers⟩ := h.current image himage
  rw [SeenEnvelopeIds.eq_of_fromBytes_toBytes hparse]
  exact ⟨hremembers, h.current, h.noReplay, h.live⟩

theorem ReceiverRun.holds (h : ReceiverRun platform Receiver.CurrentImage r log) :
    r.Holds log := by
  induction h with
  | started clock =>
      exact ⟨fun a ha => absurd ha List.not_mem_nil, fun bytes hbytes => absurd hbytes
        List.not_mem_nil, List.Pairwise.nil, fun a ha => absurd ha List.not_mem_nil⟩
  | accepted _ hfirst hclock hopen ih => exact ih.accept hfirst hclock hopen
  | refused _ hfirst hclock hopen ih => exact ih.refuse hfirst hclock hopen
  | saved _ ih => exact ih.save
  | reloaded _ himage hparse ih => exact ih.reload himage hparse

/-- Replay safety across restarts, for a receiver that reloads no image
older than its last acceptance: in every run, an envelope accepted under the
id of an earlier one finds that one expired, and no pair of id and expiry is
accepted twice. -/
theorem no_replay (h : ReceiverRun platform Receiver.CurrentImage r log) :
    log.Pairwise (fun first second => first.id = second.id → Expired second.time first.expiry)
      ∧ (log.map fun a => (a.id, a.expiry)).Nodup :=
  ⟨h.holds.noReplay, h.holds.noReplay.nodup h.holds.live⟩

-- ============================================================== inhabited

/-- The sample envelope without expiry, under any id: a store that does not
hold the id accepts it. -/
theorem sample_opens (id : EnvelopeId) :
    ∃ envelope : TransferEnvelope, envelope.envelopeId = id ∧ envelope.expiresAt = none
      ∧ ∀ seen : SeenEnvelopeIds, id ∉ seen.ids → ∃ seen' : SeenEnvelopeIds,
        openEnvelope TransferPlatform.transparent ⟨0, 0, 0⟩ envelope sampleOpener seen
            = (.ok [1, 2, 3], seen')
          ∧ seen'.entries = (seen.evictExpired 0).entries ++ [(id, none)] := by
  have hopener := sampleOpener_of (List.Vector.replicate 32 9)
  obtain ⟨envelope, hcreate⟩ : ∃ envelope, createEnvelope TransferPlatform.transparent 0
      { sampleEnvelopeDraws with envelopeId := id } (sampleParams (List.Vector.replicate 32 9))
        = .ok envelope :=
    exists_createEnvelope TransferPlatform.transparent_correct.toAgrees (fun _ _ => rfl) rfl
      not_expired_none (.inr (fun h => nomatch h)) hopener (by show 3 + 70 < 2 ^ 32; decide)
  have hfrom := CreatedFrom.of_create hcreate
  have hexpiry : envelope.expiresAt = none := hfrom.expiresAt
  have hlive : ¬ Expired (0 : Timestamp) envelope.expiresAt := by
    rw [hexpiry]
    exact not_expired_none
  have hvalid : validateEnvelope TransferPlatform.transparent 0 envelope
      (openerBinding envelope sampleOpener) = .ok () := by
    refine validateEnvelope_eq_ok.mpr ⟨hfrom.version, hfrom.transferProfile, hlive, ?_⟩
    rw [hfrom.transcriptHash, computeTranscriptHash, computeTranscriptHash,
      hfrom.transcript_eq hopener fun _ => rfl]
  have hauth := hfrom.authenticate TransferPlatform.transparent_correct hopener hvalid
  refine ⟨envelope, hfrom.envelopeId, hexpiry, fun seen hnew => ?_⟩
  rw [← show envelope.envelopeId = id from hfrom.envelopeId] at hnew
  obtain ⟨seen', hrun, hentries⟩ :
      ∃ seen', openEnvelope TransferPlatform.transparent ⟨0, 0, 0⟩ envelope sampleOpener seen
          = (.ok [1, 2, 3], seen')
        ∧ seen'.entries = (seen.evictExpired 0).entries
          ++ [(envelope.envelopeId, envelope.expiresAt)] :=
    openEnvelope_of_new hauth hlive hnew
  refine ⟨seen', hrun, ?_⟩
  rw [hentries, hexpiry, hfrom.envelopeId]

/-- What a store holds without expiry it refuses. -/
theorem sample_refused {envelope : TransferEnvelope} {seen : SeenEnvelopeIds}
    (hheld : (envelope.envelopeId, none) ∈ seen.entries) :
    ∃ e seen', openEnvelope TransferPlatform.transparent ⟨0, 0, 0⟩ envelope sampleOpener seen
      = (.error e, seen') := by
  rcases openEnvelope_cases TransferPlatform.transparent ⟨0, 0, 0⟩ envelope sampleOpener seen with
    ⟨e, -, hrun⟩ | ⟨payload, e, -, hrun, -⟩ | ⟨payload, seen', -, -, -, hnew, -⟩
  · exact ⟨e, _, hrun⟩
  · exact ⟨e, _, hrun⟩
  · refine absurd (List.mem_map.mpr ⟨(envelope.envelopeId, none), ?_, rfl⟩) hnew
    exact SeenEnvelopeIds.mem_evictExpired.mpr ⟨hheld, not_expired_none⟩

/-- A replay refused by a store that holds the envelope's id. -/
theorem failed_open_keeps_store_of_replay :
    ∃ (envelope : TransferEnvelope) (seen seen' : SeenEnvelopeIds) (e : TransferError),
      seen.entries = [(envelope.envelopeId, none)]
      ∧ openEnvelope TransferPlatform.transparent ⟨0, 0, 0⟩ envelope sampleOpener seen
        = (.error e, seen')
      ∧ seen'.evictExpired 0 = seen.evictExpired 0 := by
  obtain ⟨envelope, hid, -, hopens⟩ := sample_opens (numberedId 2)
  obtain ⟨seen, -, hentries⟩ := hopens .new List.not_mem_nil
  have hentries' : seen.entries = [(envelope.envelopeId, none)] := by
    rw [hentries, hid]
    rfl
  have hheld : (envelope.envelopeId, none) ∈ seen.entries := by
    rw [hentries']
    exact List.mem_singleton_self _
  obtain ⟨e, seen', hrun⟩ := sample_refused hheld
  refine ⟨envelope, seen, seen', e, hentries', hrun, ?_⟩
  exact ((failed_open_keeps_store TransferPlatform.transparent ⟨0, 0, 0⟩ envelope sampleOpener
    seen).2 e seen' hrun).2 0 (UInt64.le_refl 0)

/-- Accepted, saved, and another accepted once the image is loaded again;
the first is then refused. -/
theorem no_replay_of_reload :
    ∃ (r : Receiver) (a b : Acceptance EnvelopeId Timestamp) (e : TransferError)
      (replay : TransferEnvelope) (seen : SeenEnvelopeIds),
      ReceiverRun TransferPlatform.transparent Receiver.CurrentImage r [a, b]
      ∧ replay.envelopeId = a.id ∧ a.expiry = none ∧ b.expiry = none
      ∧ openEnvelope TransferPlatform.transparent ⟨0, 0, 0⟩ replay sampleOpener r.seen
        = (.error e, seen)
      ∧ ([a, b].map fun c => (c.id, c.expiry)).Nodup := by
  obtain ⟨first, hid₁, hexpiry₁, hopens₁⟩ := sample_opens (numberedId 2)
  obtain ⟨second, hid₂, hexpiry₂, hopens₂⟩ := sample_opens (numberedId 3)
  have hclock : (⟨0, 0, 0⟩ : OpenClock).Monotone := ⟨UInt64.le_refl 0, UInt64.le_refl 0⟩
  have hfirst : (0 : Timestamp) ≤ (⟨0, 0, 0⟩ : OpenClock).validate := UInt64.le_refl 0
  obtain ⟨seen₁, hopen₁, hentries₁⟩ := hopens₁ .new List.not_mem_nil
  have hheld₁ : seen₁.entries = [(numberedId 2, none)] := hentries₁
  have hparse : SeenEnvelopeIds.fromBytes seen₁.toBytes = .ok seen₁ := by
    rw [SeenEnvelopeIds.roundTrip_iff, hheld₁]
    show 1 ≤ 65536
    decide
  have hnew : numberedId 3 ∉ seen₁.ids := by
    unfold SeenEnvelopeIds.ids
    rw [hheld₁]
    decide
  obtain ⟨seen₂, hopen₂, hentries₂⟩ := hopens₂ seen₁ hnew
  have hkept : (first.envelopeId, none) ∈ seen₂.entries := by
    rw [hentries₂, hid₁]
    refine List.mem_append_left _ (SeenEnvelopeIds.mem_evictExpired.mpr ⟨?_, not_expired_none⟩)
    rw [hheld₁]
    exact List.mem_singleton_self _
  obtain ⟨e, seen₃, hrefused⟩ := sample_refused hkept
  have hstart : ReceiverRun TransferPlatform.transparent Receiver.CurrentImage (.started 0) [] :=
    .started 0
  have hsaved := (hstart.accepted hfirst hclock hopen₁).saved
  have hrun := (hsaved.reloaded (List.mem_cons_self ..) hparse).accepted hfirst hclock hopen₂
  exact ⟨_, _, _, e, first, seen₃, hrun, rfl, hexpiry₁, hexpiry₂, hrefused, (no_replay hrun).2⟩

/-- The image of the empty store, saved first and loaded after an
acceptance: the same envelope is accepted again. -/
theorem replay_of_stale_image :
    ∃ (r : Receiver) (a : Acceptance EnvelopeId Timestamp),
      ReceiverRun TransferPlatform.transparent Receiver.AnyImage r [a, a] ∧ a.expiry = none
      ∧ ¬ ([a, a].Pairwise
          (fun first second => first.id = second.id → Expired second.time first.expiry)
        ∧ ([a, a].map fun b => (b.id, b.expiry)).Nodup) := by
  obtain ⟨envelope, -, hexpiry, hopens⟩ := sample_opens (numberedId 2)
  have hclock : (⟨0, 0, 0⟩ : OpenClock).Monotone := ⟨UInt64.le_refl 0, UInt64.le_refl 0⟩
  have hfirst : (0 : Timestamp) ≤ (⟨0, 0, 0⟩ : OpenClock).validate := UInt64.le_refl 0
  obtain ⟨seen, hopen, -⟩ := hopens .new List.not_mem_nil
  have hparse : SeenEnvelopeIds.fromBytes SeenEnvelopeIds.new.toBytes = .ok .new := by
    rw [SeenEnvelopeIds.roundTrip_iff]
    exact Nat.zero_le _
  -- the image is older than the acceptance when it is loaded
  have hstart : ReceiverRun TransferPlatform.transparent Receiver.AnyImage (.started 0) [] :=
    .started 0
  have haccepted := hstart.saved.accepted hfirst hclock hopen
  have hreloaded := haccepted.reloaded (.inr (List.mem_cons_self ..)) hparse
  have hrun := hreloaded.accepted hfirst hclock hopen
  refine ⟨_, ⟨envelope.envelopeId, envelope.expiresAt, 0⟩, hrun, hexpiry, fun h => ?_⟩
  exact (List.nodup_cons.mp h.2).1 (List.mem_cons_self ..)

end MeissnerSeal
