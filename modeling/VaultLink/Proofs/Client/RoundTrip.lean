import VaultLink.Proofs.Client.Submission
import VaultLink.Proofs.Client.Waiting

/-!
# What decides a round trip

Once a request is written, what the link brings before the deadline decides its round trip
(`roundTrip_of_brings`). It is accepted exactly if it is a message that answers the very request that was
written (`Answers`, `settle_conclude_eq_ok_iff`), and nothing of it is taken otherwise
(`settle_conclude_eq_error`).
-/

namespace VaultLink.Client

open Link (Received)

variable {σ : Type} {c sent : Client σ} {action : Action} {fields : Json.Members}
  {triggerUnlock : Bool} {request : SealedRequest}

/-- The text of a message answers the request that went out under a nonce: it is a box about the
request's action, under the nonce after the request's, and it opens to an object with these members,
which name neither another action nor another nonce and report success. -/
def Answers (keys : KeyPair) (peer : PublicKey) (action : Action) (nonce : Nonce) (text : String)
    (body : Json.Members) : Prop :=
  ∃ reply plaintext,
    Inbound.decode text = .ok (.encrypted reply) ∧ reply.action = action ∧
    nonce.increment = some reply.nonce ∧
    Box.decrypt keys peer reply.nonce reply.box = .ok plaintext ∧
    Json.parse plaintext = .ok (.object body) ∧
    body.Agrees "action" action.wireName ∧ body.Agrees "nonce" reply.nonce.toBase64 ∧
    body.Raises "success"

/-- After the request was written, it stays to wait for the reply and to take it. -/
theorem roundTrip_of_submit (ho : c.closed = false)
    (hw : submit action fields triggerUnlock c = .ok request sent) :
    roundTrip action fields triggerUnlock c =
      closing (awaitReply action (timeoutFor c.config action triggerUnlock) >>=
        settle action request) sent := by
  have hc : sent.config = c.config := by rw [(submit_eq_ok hw).client_eq]
  simp only [roundTrip, bind_apply, ensureOpen_of_open ho, closing, exchange, hw, get_apply, hc]

theorem roundTrip_of_submit_error {d : Client σ} {e : Error} (ho : c.closed = false)
    (hw : submit action fields triggerUnlock c = .error e d) :
    roundTrip action fields triggerUnlock c =
      .error e { d with closed := breaksStream e || d.closed } := by
  rw [roundTrip, bind_of_ok (ensureOpen_of_open ho)]
  exact closing_of_error (bind_of_error hw _)

theorem roundTrip_of_no_deadline (ho : c.closed = false)
    (hw : submit action fields triggerUnlock c = .ok request sent)
    (hd : sent.deadline? (timeoutFor c.config action triggerUnlock) = none) :
    roundTrip action fields triggerUnlock c =
      .error .deadlineOverflow { sent with closed := true } := by
  rw [roundTrip_of_submit ho hw, closing_of_error (bind_of_error (awaitReply_of_no_deadline hd) _)]
  rfl

/-- What the link brings before the deadline decides a round trip. -/
theorem roundTrip_of_brings (ho : c.closed = false)
    (hw : submit action fields triggerUnlock c = .ok request sent) {deadline : Instant}
    (hd : sent.deadline? (timeoutFor c.config action triggerUnlock) = some deadline)
    {signals : List Signal} {received : Received} {link : Link}
    (hb : sent.link.Brings deadline signals received link) :
    roundTrip action fields triggerUnlock c =
      closing (ofExcept (conclude action (timeoutFor c.config action triggerUnlock) received) >>=
        settle action request) (sent.heard signals link) := by
  rw [roundTrip_of_submit ho hw]
  simp only [closing, bind_apply, awaitReply_of_deadline hd hb]

/-- What the link brings is accepted exactly if it answers the request. -/
theorem settle_conclude_eq_ok_iff {d : Client σ} {peer : PublicKey} {version : Option String}
    (hs : d.session.handshake = .established peer version)
    (hn : request.envelope.nonce.increment = some request.replyNonce) {wait : Duration}
    {received : Received} {body : Json.Members} :
    (∃ c', (ofExcept (conclude action wait received) >>= settle action request) d = .ok body c') ↔
      ∃ text, received = .message text ∧
        Answers d.session.keys peer action request.envelope.nonce text body := by
  constructor
  · rintro ⟨c', h⟩
    obtain ⟨inbound, d', hi, hset⟩ := bind_eq_ok h
    rcases hc : conclude action wait received with e | inbound' <;> rw [hc] at hi <;> cases hi
    obtain ⟨text, rfl, hdec, ha⟩ := conclude_eq_ok_iff.1 hc
    obtain ⟨reply, rfl, ho, hk, -⟩ := settle_eq_ok_iff.1 hset
    obtain ⟨peer', version', plaintext, hs', hr, hbox, hj⟩ := Session.openReply_eq_ok_iff.1 ho
    cases hs.symm.trans hs'
    obtain ⟨-, hna, hnn, hsu⟩ := checkReply_eq_ok_iff.1 hk
    exact ⟨text, rfl, reply, plaintext, hdec, ha, hr ▸ hn, hbox, hj, hna, hr ▸ hnn, hsu⟩
  · rintro ⟨text, rfl, reply, plaintext, hdec, ha, hn', hbox, hj, hna, hnn, hsu⟩
    have hr : reply.nonce = request.replyNonce := Option.some.inj (hn'.symm.trans hn)
    have hc : conclude action wait (.message text) = .ok (.encrypted reply) :=
      conclude_eq_ok_iff.2 ⟨text, rfl, hdec, ha⟩
    refine ⟨_, (bind_of_ok (by rw [hc]; rfl) _).trans (settle_eq_ok_iff.2 ⟨reply, rfl, ?_, ?_, rfl⟩)⟩
    · exact Session.openReply_eq_ok_iff.2 ⟨peer, version, plaintext, hs, hr, hbox, hj⟩
    · exact checkReply_eq_ok_iff.2 ⟨rfl, hna, hr ▸ hnn, hsu⟩

/-- A client that fails to settle has taken nothing of what its link brought. -/
theorem settle_conclude_eq_error {d d' : Client σ} {wait : Duration} {received : Received} {e : Error}
    (h : (ofExcept (conclude action wait received) >>= settle action request) d = .error e d') :
    d' = d := by
  rcases hc : conclude action wait received with e' | inbound
  · rw [bind_of_error (by rw [hc]; rfl)] at h
    cases h
    rfl
  · rw [bind_of_ok (by rw [hc]; rfl)] at h
    exact settle_eq_error h

/-- A round trip accepts what its link brings exactly if that answers the request. -/
theorem exists_roundTrip_eq_ok_iff (ho : c.closed = false) {peer : PublicKey} {version : Option String}
    (hs : c.session.handshake = .established peer version)
    (hw : submit action fields triggerUnlock c = .ok request sent) {deadline : Instant}
    (hd : sent.deadline? (timeoutFor c.config action triggerUnlock) = some deadline)
    {signals : List Signal} {received : Received} {link : Link}
    (hb : sent.link.Brings deadline signals received link) {body : Json.Members} :
    (∃ c', roundTrip action fields triggerUnlock c = .ok body c') ↔
      ∃ text, received = .message text ∧
        Answers c.session.keys peer action request.envelope.nonce text body := by
  have hsub := submit_eq_ok hw
  obtain ⟨nonces, hsession⟩ := hsub.session_eq
  have hs' : sent.session.handshake = .established peer version := by rw [hsession]; exact hs
  have hk : sent.session.keys = c.session.keys := by rw [hsession]
  rw [← hk, roundTrip_of_brings ho hw hd hb]
  simp only [closing_eq_ok_iff]
  exact settle_conclude_eq_ok_iff (d := sent.heard signals link) hs' hsub.reserves.reply_eq

/-- A round trip that does not accept what its link brings leaves the client that heard the signals, closed
or not. -/
theorem roundTrip_eq_error_of_brings (ho : c.closed = false)
    (hw : submit action fields triggerUnlock c = .ok request sent) {deadline : Instant}
    (hd : sent.deadline? (timeoutFor c.config action triggerUnlock) = some deadline)
    {signals : List Signal} {received : Received} {link : Link}
    (hb : sent.link.Brings deadline signals received link) {e : Error} {d : Client σ}
    (hr : roundTrip action fields triggerUnlock c = .error e d) :
    ∃ closed, d = { sent.heard signals link with closed } := by
  rw [roundTrip_of_brings ho hw hd hb] at hr
  rcases hx : (ofExcept (conclude action (timeoutFor c.config action triggerUnlock) received) >>=
    settle action request) (sent.heard signals link) with ⟨body, c'⟩ | ⟨e', c'⟩
  · cases hr.symm.trans (closing_of_ok hx)
  · cases settle_conclude_eq_error hx
    cases hr.symm.trans (closing_of_error hx)
    exact ⟨breaksStream e || sent.closed, rfl⟩

end VaultLink.Client
