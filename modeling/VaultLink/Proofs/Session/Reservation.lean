import VaultLink.Proofs.Crypto.Counting
import VaultLink.Session

/-!
# Reserved nonces

Every message that a session makes takes the nonce of the sequencer's position for itself and the
next one for its reply (`Session.Reserves`). This module says so of a reservation (`reserve_eq_ok`),
of the start of the key exchange (`begin_eq_ok`) and of a sealed request (`sealRequest_eq_ok`), and
that what fails for want of nonces has used them up (`reserve_eq_error`, `begin_eq_error`,
`sealRequest_eq_error`).
-/

namespace VaultLink.Session

/-- From `s` to `t`, the nonce of the position was taken for a request and the next one for its
reply. -/
structure Reserves (s : Session) (request reply : Nonce) (t : Session) : Prop where
  request_eq : request.toNatLE = s.nonces.position
  reply_eq : request.increment = some reply
  position_eq : t.nonces.position = s.nonces.position + 2

/-- The reply's nonce is the number after the request's. -/
theorem Reserves.reply_toNatLE {s t : Session} {request reply : Nonce}
    (h : s.Reserves request reply t) : reply.toNatLE = s.nonces.position + 1 := by
  rw [Nonce.increment_eq_some_iff.1 h.reply_eq, h.request_eq]

/-- From `s` to `t`, nonces may have been wasted, but the nonces are used up if the error says so. -/
structure Wastes (s : Session) (e : Error) (t : Session) : Prop where
  position_le : s.nonces.position ≤ t.nonces.position
  exhausted : e = .crypto .nonceExhausted → t.nonces.position = Nonce.count

/-- A failure that leaves the nonces alone and is not for want of them. -/
theorem Wastes.of_nonces_eq {s t : Session} {e : Error} (hn : t.nonces = s.nonces)
    (he : e ≠ .crypto .nonceExhausted) : s.Wastes e t :=
  ⟨Nat.le_of_eq (by rw [hn]), fun h => absurd h he⟩

theorem reserve_eq_ok {s t : Session} {request reply : Nonce}
    (h : s.reserve = (.ok (request, reply), t)) :
    s.Reserves request reply t ∧ ∃ nonces, t = { s with nonces } := by
  unfold reserve at h
  rcases h₁ : s.nonces.draw with ⟨_ | first, after⟩ <;> rw [h₁] at h
  · cases h
  rcases h₂ : after.draw with ⟨_ | second, rest⟩ <;> simp only [h₂] at h
  · cases h
  cases h
  obtain ⟨v₁, p₁⟩ := Sequencer.draw_eq_ok h₁
  obtain ⟨v₂, p₂⟩ := Sequencer.draw_eq_ok h₂
  refine ⟨⟨v₁, ?_, ?_⟩, rest, rfl⟩
  · rw [Nonce.increment_eq_some_iff, v₂, p₁, v₁]
  · show rest.position = s.nonces.position + 2
    omega

theorem reserve_eq_error {s t : Session} {e : Error} (h : s.reserve = (.error e, t)) :
    s.Wastes e t ∧ ∃ nonces, t = { s with nonces } := by
  unfold reserve at h
  rcases h₁ : s.nonces.draw with ⟨_ | first, after⟩ <;> rw [h₁] at h
  · cases h
    obtain ⟨-, rfl, p⟩ := Sequencer.draw_eq_error h₁
    exact ⟨⟨Nat.le_refl _, fun _ => p⟩, _, rfl⟩
  rcases h₂ : after.draw with ⟨_ | second, rest⟩ <;> simp only [h₂] at h
  · cases h
    -- The last nonce went into the request that is not made.
    obtain ⟨-, rfl, p₂⟩ := Sequencer.draw_eq_error h₂
    obtain ⟨-, p₁⟩ := Sequencer.draw_eq_ok h₁
    exact ⟨⟨by show s.nonces.position ≤ rest.position; omega, fun _ => p₂⟩, _, rfl⟩
  · cases h

/-- A session runs out of nonces and fails to reserve some for no other reason. -/
theorem reserve_eq_exhausted {s t : Session} {e : Error} (h : s.reserve = (.error e, t)) :
    e = .crypto .nonceExhausted ∧ t.nonces.position = Nonce.count := by
  have hwastes := (reserve_eq_error h).1
  have he : e = .crypto .nonceExhausted := by
    unfold reserve at h
    rcases h₁ : s.nonces.draw with ⟨fault | first, after⟩ <;> rw [h₁] at h
    · obtain ⟨rfl, -⟩ := Sequencer.draw_eq_error h₁
      cases h
      rfl
    rcases h₂ : after.draw with ⟨fault | second, rest⟩ <;> simp only [h₂] at h <;> cases h
    obtain ⟨rfl, -⟩ := Sequencer.draw_eq_error h₂
    rfl
  exact ⟨he, hwastes.exhausted he⟩

/-- Two nonces are enough for a request and its reply. -/
theorem exists_reserve_eq_ok {s : Session} (h : s.nonces.position + 2 ≤ Nonce.count) :
    ∃ request reply t, s.reserve = (.ok (request, reply), t) := by
  obtain ⟨request, after, h₁⟩ := Sequencer.exists_draw_eq_ok (s := s.nonces) (by omega)
  obtain ⟨-, hp⟩ := Sequencer.draw_eq_ok h₁
  obtain ⟨reply, rest, h₂⟩ := Sequencer.exists_draw_eq_ok (s := after) (by omega)
  exact ⟨request, reply, { s with nonces := rest }, by simp only [reserve, h₁, h₂]⟩

theorem begin_eq_ok {s t : Session} {message : Outbound} (h : s.begin = (.ok message, t)) :
    s.handshake = .idle ∧ ∃ reply nonces, t = { s with handshake := .keysSent reply, nonces } ∧
      s.Reserves message.nonce reply t := by
  unfold Session.begin at h
  split at h
  · rename_i hi
    rcases hr : s.reserve with ⟨e | ⟨request, reply⟩, u⟩ <;> rw [hr] at h
    · cases h
    · cases h
      obtain ⟨⟨h₁, h₂, h₃⟩, nonces, rfl⟩ := reserve_eq_ok hr
      exact ⟨hi, reply, nonces, rfl, h₁, h₂, h₃⟩
  · cases h

theorem begin_eq_error {s t : Session} {e : Error} (h : s.begin = (.error e, t)) : s.Wastes e t := by
  unfold Session.begin at h
  split at h
  · rcases hr : s.reserve with ⟨e' | ⟨request, reply⟩, u⟩ <;> rw [hr] at h
    · cases h; exact (reserve_eq_error hr).1
    · cases h
  · cases h; exact .of_nonces_eq rfl (by simp)

theorem complete_nonces {s t : Session} {reply : Inbound} {result : Except Error Unit}
    (h : s.complete reply = (result, t)) :
    t.nonces = s.nonces ∧ result ≠ .error (.crypto .nonceExhausted) := by
  unfold complete at h
  split at h
  · split at h <;> cases h <;> exact ⟨rfl, by simp⟩
  · cases h; exact ⟨rfl, by simp⟩

theorem reject_nonces (s : Session) : s.reject.nonces = s.nonces := by
  unfold reject
  split <;> rfl

theorem requirePeer_ne_crypto (s : Session) (fault : CryptoFault) :
    s.requirePeer ≠ .error (.crypto fault) := by
  unfold requirePeer
  split <;> simp

theorem requirePeer_eq_ok {s : Session} {peer : PublicKey} (h : s.requirePeer = .ok peer) :
    ∃ version, s.handshake = .established peer version := by
  unfold requirePeer at h
  split at h <;> cases h
  exact ⟨_, by assumption⟩

theorem sealRequest_eq_ok {s t : Session} {action : Action} {fields : Json.Members}
    {triggerUnlock : Bool} {request : SealedRequest}
    (h : s.sealRequest action fields triggerUnlock = (.ok request, t)) :
    s.Reserves request.envelope.nonce request.replyNonce t ∧ (∃ nonces, t = { s with nonces }) ∧
      ∃ box nonce, request.envelope = .encrypted action box nonce s.clientId triggerUnlock := by
  unfold sealRequest at h
  rcases hp : s.requirePeer with e | peer <;> rw [hp] at h
  · cases h
  rcases hr : s.reserve with ⟨e | ⟨nonce, reply⟩, u⟩ <;> simp only [hr] at h
  · cases h
  · cases h
    obtain ⟨hres, nonces, rfl⟩ := reserve_eq_ok hr
    exact ⟨hres, ⟨nonces, rfl⟩, _, nonce, rfl⟩

/-- A request can be sealed after the key exchange as long as two nonces are left. -/
theorem exists_sealRequest_eq_ok {s : Session} {peer : PublicKey} {version : Option String}
    (hs : s.handshake = .established peer version) (hp : s.nonces.position + 2 ≤ Nonce.count)
    (action : Action) (fields : Json.Members) (triggerUnlock : Bool) :
    ∃ request t, s.sealRequest action fields triggerUnlock = (.ok request, t) := by
  obtain ⟨nonce, reply, t, hr⟩ := exists_reserve_eq_ok hp
  exact ⟨_, t, by simp only [sealRequest, requirePeer, hs, hr]; rfl⟩

theorem sealRequest_eq_error {s t : Session} {action : Action} {fields : Json.Members}
    {triggerUnlock : Bool} {e : Error}
    (h : s.sealRequest action fields triggerUnlock = (.error e, t)) :
    s.Wastes e t ∧ ∃ nonces, t = { s with nonces } := by
  unfold sealRequest at h
  rcases hp : s.requirePeer with e' | peer <;> rw [hp] at h
  · cases h
    exact ⟨.of_nonces_eq rfl fun he => requirePeer_ne_crypto s _ (hp.trans (congrArg _ he)), _, rfl⟩
  rcases hr : s.reserve with ⟨e' | ⟨nonce, reply⟩, u⟩ <;> simp only [hr] at h
  · cases h; exact reserve_eq_error hr
  · cases h

end VaultLink.Session
