/-
The trust states of a device, and the transitions pairing allows between
them.

# Histories

A device whose states each follow from the one before by an allowed
transition is closed for good once it is revoked or expired
(`closed_trustAfter`). From untrusted it comes to be a trusted sender by one
way only: a pairing under way, then verified, and perhaps approved
(`trustedSender_iff`).

# Past the policy

The sender of a received envelope is read from a text, which says nothing of
trust; the receiver's choice of the file stands for it. That is no allowed
transition (`trusted_past_policy`).
-/
import MeissnerSeal.Keys.IdentityText
import MeissnerSeal.Keys.Pairing

namespace MeissnerSeal

open ExceptRules

-- ============================================================== transitions

/-- `validate_trust_transition`. -/
def validateTrustTransition (current next : DeviceTrustState) : PairingRes Unit :=
  match current, next with
  | .untrusted, .pendingInbound
  | .untrusted, .pendingOutbound
  | .pendingInbound, .verified
  | .pendingOutbound, .verified
  | .verified, .approved
  | .untrusted, .revoked
  | .pendingInbound, .revoked
  | .pendingOutbound, .revoked
  | .verified, .revoked
  | .approved, .revoked
  | .revoked, .revoked
  | .untrusted, .expired
  | .pendingInbound, .expired
  | .pendingOutbound, .expired
  | .verified, .expired
  | .approved, .expired
  | .expired, .expired => .ok ()
  | _, _ => .error .invalidTrustTransition

/-- The state a device comes to through the requested states, each validated
against the one it has: the only way a `PairingSession` may change its own. -/
def trustAfter (current : DeviceTrustState) : List DeviceTrustState → PairingRes DeviceTrustState
  | [] => .ok current
  | next :: rest => do
      validateTrustTransition current next
      trustAfter next rest

def DeviceTrustState.Pending (state : DeviceTrustState) : Prop :=
  state = .pendingInbound ∨ state = .pendingOutbound

def DeviceTrustState.Closed (state : DeviceTrustState) : Prop := state = .revoked ∨ state = .expired

variable {current next state : DeviceTrustState} {requests : List DeviceTrustState}

theorem trustAfter_cons_eq_ok :
    trustAfter current (next :: requests) = .ok state
      ↔ validateTrustTransition current next = .ok () ∧ trustAfter next requests = .ok state := by
  rw [trustAfter, bind_eq_ok]
  constructor
  · intro h
    obtain ⟨⟨⟩, hvalid, hrest⟩ := h
    exact ⟨hvalid, hrest⟩
  · intro h
    exact ⟨(), h⟩

/-- Where a state may go: one step on, or closed. -/
theorem next_of_validate (h : validateTrustTransition current next = .ok ()) :
    (current = .untrusted ∧ next.Pending) ∨ (current.Pending ∧ next = .verified)
      ∨ (current = .verified ∧ next = .approved) ∨ next.Closed := by
  unfold DeviceTrustState.Pending DeviceTrustState.Closed
  cases current <;> cases next <;> first | decide | cases h

theorem DeviceTrustState.Closed.eq_of_validate (hclosed : current.Closed)
    (h : validateTrustTransition current next = .ok ()) : next = current := by
  rcases hclosed with rfl | rfl <;> cases next <;> first | rfl | cases h

/-- A revoked or expired device stays what it is. -/
theorem closed_trustAfter (hclosed : current.Closed) (h : trustAfter current requests = .ok state) :
    state = current := by
  induction requests generalizing current with
  | nil => exact (Except.ok.inj h).symm
  | cons next rest ih =>
      obtain ⟨hvalid, hrest⟩ := trustAfter_cons_eq_ok.mp h
      have hnext := hclosed.eq_of_validate hvalid
      exact (ih (hnext ▸ hclosed) hrest).trans hnext

-- ============================================================ trusted senders

/-- A trusted sender is verified or approved, and has a key. -/
theorem exists_fromVerified_iff {identity : DeviceIdentity} :
    (∃ sender, TrustedSender.fromVerified identity = .ok sender)
      ↔ (identity.trustState = .verified ∨ identity.trustState = .approved)
        ∧ identity.signingPublicKey.isSome := by
  simp only [TrustedSender.fromVerified, bind_eq_ok, rejectIf_eq_ok, okOr_eq_ok, pure_eq_ok]
  constructor
  · intro h
    obtain ⟨_, _, hstate, key, hkey, -⟩ := h
    exact ⟨by tauto, Option.isSome_iff_exists.mpr ⟨key, hkey⟩⟩
  · intro h
    obtain ⟨key, hkey⟩ := Option.isSome_iff_exists.mp h.2
    exact ⟨⟨key⟩, (), by tauto, key, hkey, rfl⟩

/-- On the way to trust every step leads on. -/
theorem step_of_trusted (htrusted : state = .verified ∨ state = .approved)
    (h : trustAfter current (next :: requests) = .ok state) :
    ((current = .untrusted ∧ next.Pending) ∨ (current.Pending ∧ next = .verified)
      ∨ (current = .verified ∧ next = .approved)) ∧ trustAfter next requests = .ok state := by
  obtain ⟨hvalid, hrest⟩ := trustAfter_cons_eq_ok.mp h
  have hopen : ¬ next.Closed := by
    intro hclosed
    have heq := closed_trustAfter hclosed hrest
    subst heq
    rcases htrusted with rfl | rfl <;> rcases hclosed with h | h <;> cases h
  rcases next_of_validate hvalid with huntrusted | hpending | hverified | hclosed
  · exact ⟨.inl huntrusted, hrest⟩
  · exact ⟨.inr (.inl hpending), hrest⟩
  · exact ⟨.inr (.inr hverified), hrest⟩
  · exact absurd hclosed hopen

theorem requests_of_approved (htrusted : state = .verified ∨ state = .approved)
    (h : trustAfter .approved requests = .ok state) : requests = [] := by
  cases requests with
  | nil => rfl
  | cons next rest =>
      rcases (step_of_trusted htrusted h).1 with ⟨h, -⟩ | ⟨h | h, -⟩ | ⟨h, -⟩ <;> cases h

theorem requests_of_verified (htrusted : state = .verified ∨ state = .approved)
    (h : trustAfter .verified requests = .ok state) : requests = [] ∨ requests = [.approved] := by
  cases requests with
  | nil => exact .inl rfl
  | cons next rest =>
      obtain ⟨hstep, hrest⟩ := step_of_trusted htrusted h
      rcases hstep with ⟨h, -⟩ | ⟨h | h, -⟩ | ⟨-, rfl⟩
      · cases h
      · cases h
      · cases h
      · exact .inr (by rw [requests_of_approved htrusted hrest])

theorem requests_of_pending (hpending : current.Pending)
    (htrusted : state = .verified ∨ state = .approved)
    (h : trustAfter current requests = .ok state) :
    requests = [.verified] ∨ requests = [.verified, .approved] := by
  cases requests with
  | nil =>
      obtain rfl := Except.ok.inj h
      rcases hpending with rfl | rfl <;> rcases htrusted with h | h <;> cases h
  | cons next rest =>
      obtain ⟨hstep, hrest⟩ := step_of_trusted htrusted h
      rcases hstep with ⟨rfl, -⟩ | ⟨-, rfl⟩ | ⟨rfl, -⟩
      · rcases hpending with h | h <;> cases h
      · rcases requests_of_verified htrusted hrest with rfl | rfl
        · exact .inl rfl
        · exact .inr rfl
      · rcases hpending with h | h <;> cases h

/-- A device whose states are validated one after the other, from untrusted
on, is a trusted sender just where it has a signing key and has been through a
pairing, verified, and at most approved since. -/
theorem trustedSender_iff (identity : DeviceIdentity)
    (h : trustAfter .untrusted requests = .ok identity.trustState) :
    (∃ sender, TrustedSender.fromVerified identity = .ok sender)
      ↔ identity.signingPublicKey.isSome
        ∧ ∃ pending : DeviceTrustState, pending.Pending
          ∧ (requests = [pending, .verified] ∨ requests = [pending, .verified, .approved]) := by
  rw [exists_fromVerified_iff, and_comm]
  refine and_congr_right fun _ => ⟨fun htrusted => ?_, fun hrequests => ?_⟩
  · cases requests with
    | nil =>
        rw [← Except.ok.inj h] at htrusted
        rcases htrusted with h | h <;> cases h
    | cons next rest =>
        obtain ⟨hstep, hrest⟩ := step_of_trusted htrusted h
        rcases hstep with ⟨-, hpending⟩ | ⟨h | h, -⟩ | ⟨h, -⟩
        · refine ⟨next, hpending, ?_⟩
          rcases requests_of_pending hpending htrusted hrest with rfl | rfl
          · exact .inl rfl
          · exact .inr rfl
        · cases h
        · cases h
        · cases h
  · obtain ⟨pending, hpending, rfl | rfl⟩ := hrequests
    · rcases hpending with rfl | rfl <;> exact .inl (Except.ok.inj h).symm
    · rcases hpending with rfl | rfl <;> exact .inr (Except.ok.inj h).symm

-- ============================================================ past the policy

/-- An identity read from a text is untrusted, with a key. -/
theorem untrusted_of_deserialize {text : String} {identity : DeviceIdentity}
    (h : deserializeIdentityText text = .ok identity) :
    identity.trustState = .untrusted ∧ ∃ key, identity.signingPublicKey = some key := by
  simp only [deserializeIdentityText, IdentityFields.finish, bind_eq_ok, okOr_eq_ok, pure_eq_ok,
    Except.ok.injEq] at h
  obtain ⟨-, -, _, -, _, -, _, -, key, -, _, -, _, -, _, -, _, -, _, -, -, -, rfl⟩ := h
  exact ⟨rfl, key, rfl⟩

/-- The receiver of an envelope makes a verified sender of the identity its
text says, which no pairing policy allows, and trusts it. -/
theorem trusted_past_policy {text : String} {identity : DeviceIdentity}
    (h : deserializeIdentityText text = .ok identity) :
    validateTrustTransition identity.trustState .verified = .error .invalidTrustTransition
      ∧ TrustedSender.fromVerified identity = .error .untrustedSender
      ∧ ∃ sender, TrustedSender.fromVerified { identity with trustState := .verified }
        = .ok sender := by
  obtain ⟨hstate, key, hkey⟩ := untrusted_of_deserialize h
  refine ⟨?_, ?_, ⟨key⟩, fromVerified_eq hkey (.inl rfl)⟩
  · rw [hstate]
    rfl
  · rw [TrustedSender.fromVerified, rejectIf_pos _ (by simp [hstate])]
    rfl

end MeissnerSeal
