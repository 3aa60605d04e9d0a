import VaultLink.Proofs.Client.RoundTrip
import VaultLink.Proofs.Proxy.Decoding

/-!
# What comes of a message

A round trip that receives a message judges it (`roundTrip_of_receives`): a box is opened
(`settle_of_opens`), and its members confirm the request or tell why it is refused. That the client is
not associated is told by a message only (`exists_receives`), in the open or in a box
(`settle_eq_notAssociated_iff`).
-/

namespace VaultLink

namespace Session

theorem requirePeer_ne_notAssociated (s : Session) (cause : Estrangement) :
    s.requirePeer ≠ .error (.notAssociated cause) := by
  unfold requirePeer
  split <;> simp

theorem sealRequest_ne_notAssociated {s t : Session} {action : Action} {fields : Json.Members}
    {triggerUnlock : Bool} {e : Error}
    (h : s.sealRequest action fields triggerUnlock = (.error e, t)) (cause : Estrangement) :
    e ≠ .notAssociated cause := by
  unfold sealRequest at h
  rcases hp : s.requirePeer with e' | peer <;> rw [hp] at h
  · cases h
    exact fun he => requirePeer_ne_notAssociated s cause (hp.trans (congrArg _ he))
  rcases hr : s.reserve with ⟨e' | ⟨nonce, reply⟩, u⟩ <;> simp only [hr] at h <;> cases h
  rw [(reserve_eq_exhausted hr).1]
  simp

theorem openReply_ne_notAssociated (s : Session) (reply : BoxedReply) (expected : Nonce)
    (cause : Estrangement) : s.openReply reply expected ≠ .error (.notAssociated cause) := by
  intro h
  rcases hp : s.requirePeer with e | peer
  · rw [openReply_of_requirePeer hp] at h
    cases h
    exact requirePeer_ne_notAssociated s cause hp
  obtain ⟨version, hs⟩ := requirePeer_eq_ok hp
  rw [openReply_of_established hs] at h
  split at h
  · split at h
    · unfold membersOf at h
      split at h <;> simp [Error.ofFault, Error.ofMisfit] at h
    · rename_i hd
      rw [Box.eq_authentication_of_decrypt hd] at h
      cases h
  · cases h

end Session

namespace Client

open Link (Received)

variable {σ : Type} {c d : Client σ} {action : Action} {fields body : Json.Members}
  {triggerUnlock : Bool} {request : SealedRequest} {signals : List Signal} {text : String}
  {keys : KeyPair} {peer : PublicKey} {nonce : Nonce} {cause : Estrangement}

/-! ## The message -/

/-- From `c` to `d`, an open client wrote a request, and then came signals and after them a message, all
before the deadline. -/
def Receives (c : Client σ) (action : Action) (fields : Json.Members) (triggerUnlock : Bool)
    (request : SealedRequest) (signals : List Signal) (text : String) (d : Client σ) : Prop :=
  c.closed = false ∧ ∃ sent deadline link, submit action fields triggerUnlock c = .ok request sent ∧
    sent.deadline? (timeoutFor c.config action triggerUnlock) = some deadline ∧
    sent.link.Brings deadline signals (.message text) link ∧ d = sent.heard signals link

/-- From `c` to `d`, signals were heard and nothing else was learned. -/
def Hears (signals : List Signal) (c d : Client σ) : Prop :=
  ∃ link nonces journal, d = { c with
    link
    session := { c.session with nonces }
    databaseHash := if signals.isEmpty then c.databaseHash else none
    association := if signals.isEmpty then c.association else .unknown
    journal }

/-- After a request was written, what is heard is all that is learned. -/
theorem Submits.hears {sent : Client σ} (h : c.Submits action request sent) (signals : List Signal)
    (link : Link) : Hears signals c (sent.heard signals link) := by
  obtain ⟨nonces, hn⟩ := h.session_eq
  refine ⟨link, nonces, (sent.heard signals link).journal, ?_⟩
  rw [← hn, h.client_eq]
  rfl

theorem Receives.hears (h : c.Receives action fields triggerUnlock request signals text d) :
    Hears signals c d := by
  obtain ⟨-, sent, deadline, link, hw, -, -, rfl⟩ := h
  exact (submit_eq_ok hw).hears signals link

/-- The reply must carry the nonce after that of the request. -/
theorem Receives.reply_eq (h : c.Receives action fields triggerUnlock request signals text d) :
    request.envelope.nonce.increment = some request.replyNonce := by
  obtain ⟨-, sent, deadline, link, hw, -⟩ := h
  exact (submit_eq_ok hw).reserves.reply_eq

theorem roundTrip_of_receives
    (h : c.Receives action fields triggerUnlock request signals text d) :
    roundTrip action fields triggerUnlock c =
      closing (ofExcept (conclude action (timeoutFor c.config action triggerUnlock) (.message text)) >>=
        settle action request) d := by
  obtain ⟨ho, sent, deadline, link, hw, hd, hb, rfl⟩ := h
  exact roundTrip_of_brings ho hw hd hb

theorem submit_ne_notAssociated {e : Error}
    (h : submit action fields triggerUnlock c = .error e d) (cause : Estrangement) :
    e ≠ .notAssociated cause := by
  rw [submit_eq] at h
  rcases hs : c.session.sealRequest action fields triggerUnlock with ⟨_ | request, session⟩ <;>
    simp only [hs] at h
  · cases h
    exact Session.sealRequest_ne_notAssociated hs cause
  rcases he : request.envelope.encode with _ | bytes <;> simp only [he] at h
  · cases h
    unfold Outbound.encode at he
    split at he
    · cases he
    · split at he <;> cases he
      simp
  rcases hl : c.link.send bytes with ⟨_ | _, link⟩ <;> simp only [hl] at h <;> cases h
  unfold Link.send at hl
  split at hl
  · cases hl
    simp
  · split at hl <;> cases hl

theorem conclude_ne_notAssociated {received : Received} {wait : Duration}
    (h : ∀ e, received = .failed e → Link.Fails e) (cause : Estrangement) :
    conclude action wait received ≠ .error (.notAssociated cause) := by
  cases received with
  | failed e => cases h e rfl <;> simp [conclude]
  | late | never => simp [conclude]
  | message text =>
    simp only [conclude]
    rcases hdec : Inbound.decode text with e | inbound
    · obtain ⟨fault, rfl⟩ := Inbound.decode_eq_error hdec
      simp
    · simp only
      split <;> simp

/-- A round trip that returns, or fails because the client is not associated, received a message. -/
theorem exists_receives
    (h : ∀ e d, roundTrip action fields triggerUnlock c = .error e d →
      ∃ cause, e = .notAssociated cause) :
    ∃ request signals text d, c.Receives action fields triggerUnlock request signals text d := by
  rcases ho : c.closed with _ | _
  · rcases hw : submit action fields triggerUnlock c with ⟨request, sent⟩ | ⟨e, d⟩
    · rcases hd : sent.deadline? (timeoutFor c.config action triggerUnlock) with _ | deadline
      · obtain ⟨cause, he⟩ := h _ _ (roundTrip_of_no_deadline ho hw hd)
        cases he
      obtain ⟨signals, received, link, hb⟩ := Link.exists_brings deadline sent.link
      have hround := roundTrip_of_brings ho hw hd hb
      rcases hc : conclude action (timeoutFor c.config action triggerUnlock) received with e | inbound
      · rw [closing_of_error (bind_of_error (by rw [hc]; rfl) _)] at hround
        obtain ⟨cause, rfl⟩ := h _ _ hround
        refine absurd hc (conclude_ne_notAssociated (fun e he => ?_) cause)
        obtain ⟨last, hr, -⟩ := hb.exists_receive
        exact Link.fails_of_receive (he ▸ hr)
      · obtain ⟨text, rfl, -⟩ := conclude_eq_ok_iff.1 hc
        exact ⟨request, signals, text, _, ho, sent, deadline, link, hw, hd, hb, rfl⟩
    · obtain ⟨cause, rfl⟩ := h _ _ (roundTrip_of_submit_error ho hw)
      exact absurd rfl (submit_ne_notAssociated hw cause)
  · obtain ⟨cause, he⟩ := h _ _ (bind_of_error (ensureOpen_of_closed ho) _)
    cases he

/-! ## The box -/

/-- The text of a message is a box about an action, under a nonce, which opens to an object with these
members. -/
def Opens (keys : KeyPair) (peer : PublicKey) (action : Action) (nonce : Nonce) (text : String)
    (body : Json.Members) : Prop :=
  ∃ box plaintext, Inbound.decode text = .ok (.encrypted ⟨action, nonce, box⟩) ∧
    Box.decrypt keys peer nonce box = .ok plaintext ∧ Json.parse plaintext = .ok (.object body)

/-- The members of a reply name neither another action nor another nonce and report success. -/
structure Confirms (action : Action) (nonce : Nonce) (body : Json.Members) : Prop where
  action : body.Agrees "action" action.wireName
  nonce : body.Agrees "nonce" nonce.toBase64
  success : body.Raises "success"

/-- The members of a reply name neither another action nor another nonce and report, in place of
success, the code of a failed association. -/
structure Disowns (action : Action) (nonce : Nonce) (body : Json.Members) : Prop where
  action : body.Agrees "action" action.wireName
  nonce : body.Agrees "nonce" nonce.toBase64
  failure : ¬ body.Raises "success"
  code : ∃ value, body.get? "errorCode" = some value ∧ ErrorCode.ofJson value = .ok .associationFailed

theorem confirms_iff : Confirms action nonce body ↔ checkReply action nonce body = .ok body := by
  rw [checkReply_eq_ok_iff]
  exact ⟨fun h => ⟨rfl, h.action, h.nonce, h.success⟩, fun h => ⟨h.2.1, h.2.2.1, h.2.2.2⟩⟩

/-- An answer to a request is a box that opens to members that confirm it. -/
theorem answers_iff {reply : Nonce} (h : nonce.increment = some reply) :
    Answers keys peer action nonce text body ↔
      Opens keys peer action reply text body ∧ Confirms action reply body := by
  constructor
  · rintro ⟨⟨about, answered, box⟩, plaintext, hdec, rfl, hn, hbox, hparse, ha, hnonce, hs⟩
    cases h.symm.trans hn
    exact ⟨⟨box, plaintext, hdec, hbox, hparse⟩, ha, hnonce, hs⟩
  · rintro ⟨⟨box, plaintext, hdec, hbox, hparse⟩, ha, hnonce, hs⟩
    exact ⟨_, plaintext, hdec, rfl, h, hbox, hparse, ha, hnonce, hs⟩

theorem failure_error_eq_notAssociated_iff (failure : Failure) (ha : failure.action ≠ .associate) :
    (∃ cause, failure.error = .notAssociated cause) ↔ failure.code = .associationFailed := by
  obtain ⟨action, code, message⟩ := failure
  have ha : action ≠ .associate := ha
  cases code <;> simp [Failure.error, ha]

theorem ofJson_ne_notAssociated (value : Json) (cause : Estrangement) :
    ErrorCode.ofJson value ≠ .error (.notAssociated cause) := by
  unfold ErrorCode.ofJson
  simp only
  split <;> simp

/-- A refusal tells that the client is not associated exactly by the code of a failed association. -/
theorem refusal_eq_notAssociated_iff (ha : action ≠ .associate) :
    (∃ cause, refusal action body = .notAssociated cause) ↔
      ∃ value, body.get? "errorCode" = some value ∧
        ErrorCode.ofJson value = .ok .associationFailed := by
  unfold refusal
  rcases hcode : body.get? "errorCode" with _ | value
  · simp only [Failure.ofParts, pure_bind]
    split
    · simp [pure, Except.pure, Failure.error]
    · simp
  · have hhas : (body.has "error" || body.has "errorCode") = true := by
      simp [Json.Members.has, hcode]
    simp only [hhas, if_true, Option.some.injEq, exists_eq_left', Failure.ofParts]
    rcases hj : ErrorCode.ofJson value with e | code
    · simp only [bind, Except.bind, reduceCtorEq, iff_false, not_exists]
      exact fun cause he => ofJson_ne_notAssociated value cause (hj.trans (congrArg _ he))
    · simpa [bind, Except.bind, pure, Except.pure] using
        failure_error_eq_notAssociated_iff ⟨action, code, _⟩ ha

theorem checkReply_eq_notAssociated_iff (ha : action ≠ .associate) :
    (∃ cause, checkReply action nonce body = .error (.notAssociated cause)) ↔
      Disowns action nonce body := by
  have hcheck : (∃ cause, checkReply action nonce body = .error (.notAssociated cause)) ↔
      body.Agrees "action" action.wireName ∧ body.Agrees "nonce" nonce.toBase64 ∧
        ¬ body.Raises "success" ∧ ∃ cause, refusal action body = .notAssociated cause := by
    rw [← reportsSuccess_iff,
      ← checkMember_eq_ok_iff fun named => .namesAction action named.text,
      ← checkMember_eq_ok_iff fun _ => .foreignNonce action]
    have hne (name text : String) (breach : Json → Breach) (e : Error)
        (h : checkMember body name text breach = .error e) (cause : Estrangement) :
        e ≠ .notAssociated cause := by
      unfold checkMember at h
      split at h
      · split at h <;> cases h
        simp
      · cases h
    unfold checkReply
    rcases h₁ : checkMember body "action" action.wireName _ with e | ⟨⟩
    · simpa [bind, Except.bind] using hne _ _ _ e h₁
    rcases h₂ : checkMember body "nonce" nonce.toBase64 _ with e | ⟨⟩
    · simpa [bind, Except.bind] using hne _ _ _ e h₂
    by_cases hs : reportsSuccess body = true
    · simp [bind, Except.bind, pure, Except.pure, hs]
    · simp [bind, Except.bind, hs, throw, throwThe, MonadExceptOf.throw]
  rw [hcheck, refusal_eq_notAssociated_iff ha]
  exact ⟨fun h => ⟨h.1, h.2.1, h.2.2.1, h.2.2.2⟩, fun h => ⟨h.action, h.nonce, h.failure, h.code⟩⟩

/-- A box that opens is judged by its members. -/
theorem settle_of_opens (hp : d.session.requirePeer = .ok peer)
    (h : Opens d.session.keys peer action request.replyNonce text body) (wait : Duration) :
    ∃ reply, (ofExcept (conclude action wait (.message text)) >>= settle action request) d =
      match checkReply action request.replyNonce body with
      | .ok body => .ok body { d with journal := d.journal ++ [.accepted reply body] }
      | .error e => .error e d := by
  obtain ⟨box, plaintext, hdec, hbox, hparse⟩ := h
  obtain ⟨version, hs⟩ := Session.requirePeer_eq_ok hp
  have hc : conclude action wait (.message text) =
      .ok (.encrypted ⟨action, request.replyNonce, box⟩) :=
    conclude_eq_ok_iff.2 ⟨text, rfl, hdec, rfl⟩
  have hopen : d.session.openReply ⟨action, request.replyNonce, box⟩ request.replyNonce = .ok body :=
    Session.openReply_eq_ok_iff.2 ⟨peer, version, plaintext, hs, rfl, hbox, hparse⟩
  refine ⟨⟨action, request.replyNonce, box⟩, ?_⟩
  rw [bind_of_ok (by rw [hc]; rfl)]
  simp only [settle, bind_apply, get_apply, hopen, ofExcept_ok]
  rcases checkReply action request.replyNonce body with e | body <;> rfl

/-- A refusal in the open is the error that it means. -/
theorem settle_of_failure {failure : Failure} (h : Inbound.decode text = .ok (.failure failure))
    (wait : Duration) (d : Client σ) :
    (ofExcept (conclude failure.action wait (.message text)) >>= settle failure.action request) d =
      .error failure.error d := by
  have hc : conclude failure.action wait (.message text) = .ok (.failure failure) :=
    conclude_eq_ok_iff.2 ⟨text, rfl, h, rfl⟩
  rw [bind_of_ok (by rw [hc]; rfl)]
  rfl

/-- The text of a message says that the client is not associated. -/
inductive Estranges (keys : KeyPair) (peer : PublicKey) (action : Action) (nonce : Nonce)
    (text : String) : Prop
  /-- In the open. -/
  | plain {failure : Failure} : Inbound.decode text = .ok (.failure failure) →
    failure.action = action → failure.code = .associationFailed → Estranges keys peer action nonce text
  /-- In a box. -/
  | boxed {body : Json.Members} : Opens keys peer action nonce text body →
    Disowns action nonce body → Estranges keys peer action nonce text

theorem settle_eq_notAssociated_iff (hp : d.session.requirePeer = .ok peer)
    (ha : action ≠ .associate) (wait : Duration) :
    (∃ cause d', (ofExcept (conclude action wait (.message text)) >>= settle action request) d =
        .error (.notAssociated cause) d') ↔
      Estranges d.session.keys peer action request.replyNonce text := by
  constructor
  · rintro ⟨cause, d', h⟩
    rcases hc : conclude action wait (.message text) with e | inbound
    · rw [bind_of_error (by rw [hc]; rfl)] at h
      cases h
      exact absurd hc (conclude_ne_notAssociated (fun _ he => by cases he) cause)
    obtain ⟨text', ht, hdec, hinb⟩ := conclude_eq_ok_iff.1 hc
    cases ht
    rw [bind_of_ok (by rw [hc]; rfl)] at h
    cases inbound with
    | encrypted reply =>
      obtain ⟨about, nonce, box⟩ := reply
      obtain rfl : about = action := hinb
      simp only [settle, bind_apply, get_apply] at h
      rcases ho : d.session.openReply ⟨about, nonce, box⟩ request.replyNonce with e | body <;>
        simp only [ho, ofExcept_ok, ofExcept_error] at h
      · cases h
        exact absurd ho (Session.openReply_ne_notAssociated _ _ _ cause)
      obtain ⟨peer', version, plaintext, hs, rfl, hbox, hparse⟩ := Session.openReply_eq_ok_iff.1 ho
      have hpeer : d.session.requirePeer = .ok peer' := by rw [Session.requirePeer, hs]
      cases hp.symm.trans hpeer
      rcases hk : checkReply about request.replyNonce body with e | members <;>
        simp only [hk, ofExcept_ok, ofExcept_error] at h <;> cases h
      exact .boxed ⟨box, plaintext, hdec, hbox, hparse⟩
        ((checkReply_eq_notAssociated_iff ha).1 ⟨cause, hk⟩)
    | failure failure =>
      obtain rfl : failure.action = action := hinb
      have herror : failure.error = .notAssociated cause := (EStateM.Result.error.inj h).1
      exact .plain hdec rfl ((failure_error_eq_notAssociated_iff _ ha).1 ⟨cause, herror⟩)
    | keyExchange | signal => cases h
  · rintro (⟨hdec, rfl, hcode⟩ | ⟨hopens, hdisowns⟩)
    · obtain ⟨cause, herror⟩ := (failure_error_eq_notAssociated_iff _ ha).2 hcode
      exact ⟨cause, d, herror ▸ settle_of_failure hdec wait d⟩
    · obtain ⟨cause, hk⟩ := (checkReply_eq_notAssociated_iff ha).2 hdisowns
      obtain ⟨reply, hset⟩ := settle_of_opens hp hopens wait
      exact ⟨cause, d, hset.trans (by rw [hk])⟩

/-! ## The round trip -/

theorem Hears.session_eq (h : Hears signals c d) :
    d.session.keys = c.session.keys ∧ d.session.requirePeer = c.session.requirePeer := by
  obtain ⟨link, nonces, journal, rfl⟩ := h
  exact ⟨rfl, rfl⟩

theorem exists_closing_eq_error_iff {α : Type} {m : Run σ α} {e : Error} :
    (∃ d, closing m c = .error e d) ↔ ∃ d, m c = .error e d := by
  rcases hm : m c with ⟨a, d⟩ | ⟨e', d⟩
  · simp [closing_of_ok hm]
  · simp [closing_of_error hm]

/-- A round trip returns the members of the box that confirms its request. -/
theorem roundTrip_eq_ok_iff (hp : c.session.requirePeer = .ok peer)
    (hr : c.Receives action fields triggerUnlock request signals text d) :
    (∃ d', roundTrip action fields triggerUnlock c = .ok body d') ↔
      Opens c.session.keys peer action request.replyNonce text body ∧
        Confirms action request.replyNonce body := by
  rw [← answers_iff hr.reply_eq]
  obtain ⟨version, hs⟩ := Session.requirePeer_eq_ok hp
  obtain ⟨ho, sent, deadline, link, hw, hd, hb, -⟩ := hr
  refine (exists_roundTrip_eq_ok_iff ho hs hw hd hb).trans ⟨?_, fun h => ⟨text, rfl, h⟩⟩
  rintro ⟨text, ⟨⟩, h⟩
  exact h

/-- A round trip tells that the client is not associated exactly if the message that came does. -/
theorem roundTrip_eq_notAssociated_iff (hp : c.session.requirePeer = .ok peer)
    (ha : action ≠ .associate)
    (hr : c.Receives action fields triggerUnlock request signals text d) :
    (∃ cause d', roundTrip action fields triggerUnlock c = .error (.notAssociated cause) d') ↔
      Estranges c.session.keys peer action request.replyNonce text := by
  obtain ⟨hkeys, hpeer⟩ := hr.hears.session_eq
  rw [← hkeys, ← settle_eq_notAssociated_iff (hpeer.trans hp) ha, roundTrip_of_receives hr]
  exact exists_congr fun cause => exists_closing_eq_error_iff

/-- A round trip leaves the client that received the message, with the reply in its journal if it was
accepted, and closed if the error says so. -/
theorem after_roundTrip_of_receives
    (hr : c.Receives action fields triggerUnlock request signals text d) :
    ∃ journal closed, after (roundTrip action fields triggerUnlock) c = { d with journal, closed } := by
  rw [after, roundTrip_of_receives hr]
  rcases hx : (ofExcept (conclude action (timeoutFor c.config action triggerUnlock) (.message text)) >>=
    settle action request) d with ⟨body, d'⟩ | ⟨e, d'⟩
  · rw [closing_of_ok hx]
    obtain ⟨inbound, d'', hi, hset⟩ := bind_eq_ok hx
    rcases hc : conclude action (timeoutFor c.config action triggerUnlock) (.message text) with
      e | inbound' <;> rw [hc] at hi <;> cases hi
    obtain ⟨reply, -, -, -, rfl⟩ := settle_eq_ok_iff.1 hset
    exact ⟨_, _, rfl⟩
  · rw [closing_of_error hx, settle_conclude_eq_error hx]
    exact ⟨_, _, rfl⟩

end Client

end VaultLink
