import VaultLink.Proofs.Client.Fatality

/-!
# The key exchange, all or nothing

An open client whose key exchange has not begun comes out of it with an established session, or fails
for good (`shakeHands_of_idle`). Whether no nonces are left, the key cannot be written, nothing usable
comes in time or the reply is not accepted, the error is fatal, the session is not established, and
nothing is written on this client any more (`established_or_retired`).
-/

namespace VaultLink

namespace Session

variable {s t : Session} {e : Error} {message : Outbound}

/-- The key exchange does not begin for want of nonces only. -/
theorem begin_eq_error_of_idle (hi : s.handshake = .idle) (h : s.begin = (.error e, t)) :
    e = .crypto .nonceExhausted ∧ t.handshake = .idle := by
  simp only [Session.begin, hi] at h
  rcases hr : s.reserve with ⟨e' | ⟨request, reply⟩, u⟩ <;> rw [hr] at h <;> cases h
  obtain ⟨-, nonces, rfl⟩ := reserve_eq_error hr
  exact ⟨(reserve_eq_exhausted hr).1, hi⟩

/-- The message that begins the key exchange has a text. -/
theorem exists_encode_of_begin (h : s.begin = (.ok message, t)) :
    ∃ bytes, message.encode = .ok bytes := by
  unfold Session.begin at h
  split at h
  · rcases hr : s.reserve with ⟨e' | ⟨request, reply⟩, u⟩ <;> rw [hr] at h <;> cases h
    exact ⟨_, rfl⟩
  · cases h

/-- The reply to the key exchange establishes the session or rejects it. -/
theorem complete_of_keysSent {expected : Nonce} (hs : s.handshake = .keysSent expected)
    (reply : Inbound) :
    (∃ peer version, s.complete reply = (.ok (), { s with handshake := .established peer version })) ∨
      ∃ cause, s.complete reply = (.error (.handshakeFailed cause), { s with handshake := .rejected }) := by
  simp only [complete, hs]
  rcases s.acceptKeyExchange expected reply with cause | ⟨peer, version⟩
  · exact .inr ⟨cause, rfl⟩
  · exact .inl ⟨peer, version, rfl⟩

end Session

namespace Client

open Link (Received)

variable {σ : Type} {c d : Client σ} {e : Error}

theorem isEstablished_of_handshake {peer : PublicKey} {version : Option String}
    (h : c.session.handshake = .established peer version) : c.isEstablished = true :=
  decide_eq_true (Session.phase_of_handshake h)

theorem isEstablished_of_ne (h : c.session.phase ≠ .established) : c.isEstablished = false :=
  decide_eq_false h

/-! ## Offering the key -/

/-- A key that cannot be offered fails the key exchange for good. -/
theorem offerKey_eq_error_of_idle (hi : c.session.handshake = .idle) (h : offerKey c = .error e d) :
    e.isFatal = true ∧ d.isEstablished = false := by
  rw [offerKey_eq] at h
  rcases hs : c.session.begin with ⟨e' | request, session⟩ <;> simp only [hs] at h
  · cases h
    obtain ⟨rfl, hidle⟩ := Session.begin_eq_error_of_idle hi hs
    refine ⟨rfl, isEstablished_of_ne ?_⟩
    show session.handshake.phase ≠ .established
    rw [hidle]
    decide
  obtain ⟨bytes, hb⟩ := Session.exists_encode_of_begin hs
  obtain ⟨-, reply, nonces, rfl, -⟩ := Session.begin_eq_ok hs
  rcases hl : c.link.send bytes with ⟨e' | _, link⟩ <;> simp only [hb, hl] at h <;> cases h
  -- the keys count as sent although the write failed
  obtain ⟨text, rfl⟩ := Link.send_eq_error hl
  exact ⟨rfl, isEstablished_of_ne (by simp [Session.phase, Handshake.phase])⟩

/-! ## Taking the proxy's key -/

/-- Whatever keeps the reply to the key exchange out is told as a fatal error. -/
theorem isFatal_of_conclude {action : Action} {wait : Duration} {received : Received}
    (hf : ∀ e, received = .failed e → Link.Fails e) (h : conclude action wait received = .error e) :
    (handshakeError e).isFatal = true := by
  cases received with
  | failed e' =>
    cases h
    cases hf _ rfl <;> rfl
  | late | never =>
    cases h
    rfl
  | message text =>
    simp only [conclude] at h
    rcases hdec : Inbound.decode text with e' | inbound <;> simp only [hdec] at h
    · cases h
      obtain ⟨cause, rfl⟩ := Inbound.decode_eq_error hdec
      rfl
    · split at h <;> cases h
      rfl

/-- A wait that fails leaves the session and fails the key exchange for good. -/
theorem awaitReply_eq_error {action : Action} {wait : Duration} (h : awaitReply action wait c = .error e d) :
    (handshakeError e).isFatal = true ∧ d.session = c.session := by
  rcases hd : c.deadline? wait with _ | deadline
  · rw [awaitReply_of_no_deadline hd] at h
    cases h
    exact ⟨rfl, rfl⟩
  · obtain ⟨signals, received, link, hb⟩ := Link.exists_brings deadline c.link
    rw [awaitReply_of_deadline hd hb] at h
    rcases hc : conclude action wait received with e' | inbound <;> rw [hc] at h <;> cases h
    obtain ⟨last, hr, -⟩ := hb.exists_receive
    exact ⟨isFatal_of_conclude (fun e he => Link.fails_of_receive (he ▸ hr)) hc, rfl⟩

/-- Once the keys were sent, the session is established or it is rejected for good. -/
theorem takeKey_of_keysSent {expected : Nonce} (hs : c.session.handshake = .keysSent expected) :
    match takeKey c with
    | .ok () d => d.isEstablished = true
    | .error e d => e.isFatal = true ∧ d.isEstablished = false := by
  simp only [takeKey, bind_apply, get_apply]
  rcases ha : awaitReply .changePublicKeys c.config.requestTimeout c with ⟨reply, d⟩ | ⟨e, d⟩
  · obtain ⟨result, signals, link, hresult, -⟩ :=
      awaitReply_cases .changePublicKeys c.config.requestTimeout c
    have hsession : d.session = c.session := by
      rw [hresult] at ha
      cases result <;> cases ha
      rfl
    rw [tryCatch_of_ok (closing_of_ok ha)]
    simp only [onSession_eq]
    rcases Session.complete_of_keysSent (hsession ▸ hs) reply with ⟨peer, version, hc⟩ | ⟨cause, hc⟩ <;>
      rw [hc]
    · exact isEstablished_of_handshake rfl
    · exact ⟨rfl, isEstablished_of_ne (by simp [Session.phase, Handshake.phase])⟩
  · obtain ⟨hfatal, hsession⟩ := awaitReply_eq_error ha
    rw [tryCatch_of_error (closing_of_error ha)]
    refine ⟨hfatal, isEstablished_of_ne ?_⟩
    show d.session.reject.phase ≠ .established
    rw [Session.reject, hsession, hs]
    simp [Session.phase, Handshake.phase]

/-! ## The key exchange -/

/-- A key exchange establishes the session, or it fails with a fatal error and does not. -/
theorem shakeHands_of_idle (ho : c.closed = false) (hi : c.session.handshake = .idle) :
    match shakeHands c with
    | .ok () d => d.isEstablished = true
    | .error e d => e.isFatal = true ∧ d.isEstablished = false := by
  rw [shakeHands, bind_of_ok (ensureOpen_of_open ho)]
  rcases hk : offerKey c with ⟨⟨⟩, sent⟩ | ⟨e, d⟩
  · obtain ⟨message, hoffers, -⟩ := offerKey_eq_ok hk
    obtain ⟨expected, -, hsent⟩ := hoffers.reserves
    rw [bind_of_ok hk]
    exact takeKey_of_keysSent hsent
  · rw [bind_of_error hk]
    exact offerKey_eq_error_of_idle hi hk

variable [AssociationStore σ]

/-- The key exchange of an open client is all or nothing: it succeeds exactly if the session ends
established. When it fails, the error is fatal, the session is not established, and nothing is written
on this client any more, whatever is called and whatever happens around it. -/
theorem established_or_retired (ho : c.closed = false) (hi : c.session.handshake = .idle) :
    ((∃ d, shakeHands c = .ok () d) ↔ (after shakeHands c).isEstablished = true) ∧
      ∀ e d, shakeHands c = .error e d → e.isFatal = true ∧ d.isEstablished = false ∧
        ∀ moves : List (Move σ), (run moves d).isEstablished = false ∧
          (run moves d).link.written = d.link.written := by
  have hcases := shakeHands_of_idle ho hi
  rcases hs : shakeHands c with ⟨⟨⟩, d⟩ | ⟨e, d⟩ <;> rw [hs] at hcases
  · rw [after_of_ok hs]
    exact ⟨⟨fun _ => hcases, fun _ => ⟨d, rfl⟩⟩, fun _ _ h => by cases h⟩
  · obtain ⟨hfatal, hnot⟩ := hcases
    rw [after_of_error hs]
    refine ⟨⟨fun ⟨_, h⟩ => by (cases h), fun h => ?_⟩, fun _ _ h => ?_⟩
    · rw [hnot] at h
      cases h
    · cases h
      refine ⟨hfatal, hnot, fun moves => ?_⟩
      have hspent : Spent d := leaves_shakeHands c e d hs hfatal
      have hstays := hspent.stays_run moves
      refine ⟨?_, hstays.written_eq⟩
      rw [isEstablished, hstays.session_eq]
      exact hnot

/-- The key exchange of a new client whose stream is broken fails. -/
theorem exists_shakeHands_broken :
    ∃ c d : Client MemoryStore, c.closed = false ∧ c.session.handshake = .idle ∧
      shakeHands c = .error (.transport "Broken pipe") d ∧ d.closed = true := by
  let c : Client MemoryStore :=
    (Move.proxy [] 0 (some "Broken pipe") []).apply (new 0 usual ⟨[], {}⟩ (.ofBytes []))
  have hplace : c.session.nonces.position = 0 := rfl
  obtain ⟨request, reply, session, hr⟩ := Session.exists_reserve_eq_ok (s := c.session)
    (hplace ▸ by decide)
  have hbegin : c.session.begin = (.ok (.keyExchange session.keys.publicKey request session.clientId),
      { session with handshake := .keysSent reply }) := by
    rw [Session.begin, hr]
    rfl
  have hoffer := offerKey_eq c
  rw [hbegin] at hoffer
  exact ⟨c, _, rfl, rfl, (bind_of_ok (ensureOpen_of_open rfl) _).trans (bind_of_error hoffer _), rfl⟩

theorem established_or_retired_broken :
    ∃ (c d : Client MemoryStore) (e : Error), c.closed = false ∧ c.session.handshake = .idle ∧
      shakeHands c = .error e d ∧ e.isFatal = true ∧ d.isEstablished = false ∧
        ∀ moves : List (Move MemoryStore), (run moves d).isEstablished = false ∧
          (run moves d).link.written = d.link.written := by
  obtain ⟨c, d, ho, hi, hs, -⟩ := exists_shakeHands_broken
  exact ⟨c, d, _, ho, hi, hs, (established_or_retired ho hi).2 _ d hs⟩

end Client

end VaultLink
