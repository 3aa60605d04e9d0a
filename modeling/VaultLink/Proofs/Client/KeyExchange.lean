import VaultLink.Proofs.Client.Submission
import VaultLink.Proofs.Client.Waiting

/-!
# The two ends of the key exchange

What offering the client's public key does to a client (`offerKey_eq_ok`, `offerKey_eq_error`), and
that taking the proxy's key writes nothing and takes no nonce (`takeKey_cases`).
-/

namespace VaultLink.Client

variable {σ : Type} {c c' : Client σ} {e : Error}

/-- From `c` to `c'`, the client's public key was written under the session's next nonce. -/
structure Offers (c : Client σ) (message : Outbound) (c' : Client σ) : Prop where
  idle : c.session.handshake = .idle
  reserves : ∃ reply, c.session.Reserves message.nonce reply c'.session ∧
    c'.session.handshake = .keysSent reply
  written : ∃ bytes, message.encode = .ok bytes ∧ c.link.send bytes = (.ok (), c'.link)
  client_eq : c' = { c with
    link := c'.link, session := c'.session, journal := c.journal ++ [.sent message] }

/-- The pieces of offering the public key, in their order. -/
theorem offerKey_eq (c : Client σ) :
    offerKey c =
      match c.session.begin with
      | (.error e, session) => .error e { c with session }
      | (.ok request, session) =>
        match request.encode with
        | .error e => .error e { c with session }
        | .ok bytes =>
          match c.link.send bytes with
          | (.error e, link) =>
            .error e { c with session, link, closed := breaksStream e || c.closed }
          | (.ok (), link) =>
            .ok () { c with session, link, journal := c.journal ++ [.sent request] } := by
  simp only [offerKey, bind_apply, onSession_eq]
  rcases c.session.begin with ⟨_ | request, session⟩
  · rfl
  simp only [ofExcept_ok]
  rcases request.encode with _ | bytes
  · rfl
  simp only [ofExcept_ok, closing, onLink_eq]
  rcases c.link.send bytes with ⟨e | _, link⟩
  · simp only [ofExcept_error]
    cases breaksStream e <;> rfl
  · rfl

theorem action_of_begin {s t : Session} {message : Outbound} (h : s.begin = (.ok message, t)) :
    message.action = .changePublicKeys := by
  unfold Session.begin at h
  split at h
  · rcases hr : s.reserve with ⟨e | ⟨request, reply⟩, u⟩ <;> rw [hr] at h <;> cases h
    rfl
  · cases h

theorem offerKey_eq_ok (h : offerKey c = .ok () c') :
    ∃ message, c.Offers message c' ∧ message.action = .changePublicKeys := by
  rw [offerKey_eq] at h
  rcases hs : c.session.begin with ⟨_ | request, session⟩ <;> simp only [hs] at h
  · cases h
  rcases he : request.encode with _ | bytes <;> simp only [he] at h
  · cases h
  rcases hl : c.link.send bytes with ⟨_ | _, link⟩ <;> simp only [hl] at h <;> cases h
  obtain ⟨hi, reply, nonces, rfl, hr⟩ := Session.begin_eq_ok hs
  exact ⟨request, ⟨hi, ⟨reply, hr, rfl⟩, ⟨bytes, he, hl⟩, rfl⟩, action_of_begin hs⟩

theorem exists_offerKey_eq_ok (hi : c.session.handshake = .idle)
    (hp : c.session.nonces.position + 2 ≤ Nonce.count) (hl : c.link.writeFailure? = none) :
    ∃ bytes link reply nonces journal, offerKey c = .ok () { c with
        link, session := { c.session with handshake := .keysSent reply, nonces }, journal } ∧
      c.link.send bytes = (.ok (), link) ∧ reply.toNatLE = c.session.nonces.position + 1 ∧
      nonces.position = c.session.nonces.position + 2 := by
  obtain ⟨request, reply, t, hr⟩ := Session.exists_reserve_eq_ok hp
  have hbegin : c.session.begin = (.ok (.keyExchange t.keys.publicKey request t.clientId),
      { t with handshake := .keysSent reply }) := by
    simp only [Session.begin, hi, hr]
  obtain ⟨hreserves, nonces, rfl⟩ := Session.reserve_eq_ok hr
  obtain ⟨link, hsend⟩ := exists_send_eq_ok hl (Json.render (.object
    (Outbound.keyExchange c.session.keys.publicKey request c.session.clientId).members))
  have hoffer := offerKey_eq c
  simp only [hbegin, Outbound.encode, hsend] at hoffer
  exact ⟨_, link, reply, nonces, _, hoffer, hsend, hreserves.reply_toNatLE, hreserves.position_eq⟩

/-- A key that is not offered may waste nonces, but no message went out. -/
theorem offerKey_eq_error (h : offerKey c = .error e c') :
    c.session.nonces.position ≤ c'.session.nonces.position ∧
      c'.link.written = c.link.written ∧
      ∃ session link closed, c' = { c with session, link, closed } := by
  rw [offerKey_eq] at h
  rcases hs : c.session.begin with ⟨_ | request, session⟩ <;> simp only [hs] at h
  · cases h
    exact ⟨(Session.begin_eq_error hs).position_le, rfl, session, c.link, c.closed, rfl⟩
  obtain ⟨-, reply, nonces, -, hr⟩ := Session.begin_eq_ok hs
  have hle : c.session.nonces.position ≤ session.nonces.position := by
    rw [hr.position_eq]; omega
  rcases he : request.encode with _ | bytes <;> simp only [he] at h
  · cases h
    exact ⟨hle, rfl, session, c.link, c.closed, rfl⟩
  rcases hl : c.link.send bytes with ⟨_ | _, link⟩ <;> simp only [hl] at h <;> cases h
  exact ⟨hle, written_of_send_eq_error hl, session, _, _, rfl⟩

/-- Taking the proxy's key changes the state of the key exchange and what waiting changes. -/
theorem takeKey_cases (c : Client σ) :
    ∃ signals link session closed, after takeKey c = { c.heard signals link with session, closed } ∧
      session.nonces = c.session.nonces ∧ link.written = c.link.written := by
  obtain ⟨result, signals, link, ha, hw, -⟩ :=
    awaitReply_cases .changePublicKeys c.config.requestTimeout c
  simp only [takeKey, after, bind_apply, get_apply]
  cases result with
  | error e =>
    rw [tryCatch_of_error (closing_of_error ha)]
    exact ⟨signals, link, _, _, rfl, Session.reject_nonces _, hw⟩
  | ok reply =>
    rw [tryCatch_of_ok (closing_of_ok ha)]
    simp only [onSession_eq]
    rcases hc : Session.complete reply (c.heard signals link).session with ⟨_ | _, session⟩
    · exact ⟨signals, link, session, c.closed, rfl, (Session.complete_nonces hc).1, hw⟩
    · exact ⟨signals, link, session, c.closed, rfl, (Session.complete_nonces hc).1, hw⟩

/-- A key that is accepted establishes the session. -/
theorem takeKey_of_accepted {deadline : Instant} {signals : List Signal} {text : String} {link : Link}
    (hd : c.deadline? c.config.requestTimeout = some deadline)
    (hb : c.link.Brings deadline signals (.message text) link) {reply : KeyExchangeReply}
    (hdec : Inbound.decode text = .ok (.keyExchange reply)) {expected : Nonce}
    (hs : c.session.handshake = .keysSent expected) {peer : PublicKey} {version : Option String}
    (ha : c.session.acceptKeyExchange expected (.keyExchange reply) = .ok (peer, version)) :
    takeKey c = .ok () { c.heard signals link with
      session := { c.session with handshake := .established peer version } } := by
  have hc : conclude .changePublicKeys c.config.requestTimeout (.message text) =
      .ok (.keyExchange reply) := conclude_eq_ok_iff.2 ⟨text, rfl, hdec, rfl⟩
  have hawait : awaitReply .changePublicKeys c.config.requestTimeout c = _ :=
    awaitReply_of_deadline hd hb
  rw [hc, ofExcept_ok] at hawait
  have hcomplete : Session.complete (.keyExchange reply) (c.heard signals link).session =
      (.ok (), { c.session with handshake := .established peer version }) := by
    show Session.complete (.keyExchange reply) c.session = _
    simp only [Session.complete, hs, ha]
  simp only [takeKey, bind_apply, get_apply, tryCatch_of_ok (closing_of_ok hawait), onSession_eq,
    hcomplete, ofExcept_ok]

end VaultLink.Client
