import VaultLink.Client.Exchange
import VaultLink.Proofs.Client.Sequencing
import VaultLink.Proofs.Session.Opening

/-!
# The two ends of a request

What writing a request does to a client (`submit_eq_ok`, `submit_eq_error`), when it can be written
(`submit_of_ready`), and which message settles it (`settle_eq_ok_iff`, `settle_eq_error`).
-/

namespace VaultLink

theorem Json.asString?_eq_some_iff {value : Json} {text : String} :
    value.asString? = some text ↔ value = .string text := by
  cases value with
  | string s => simp [Json.asString?]
  | _ => simp [Json.asString?]

/-- A member, if it is there, is the given text. -/
def Json.Members.Agrees (members : Members) (name text : String) : Prop :=
  ∀ value, members.get? name = some value → value = .string text

/-- A member is there and is a raised flag. -/
def Json.Members.Raises (members : Members) (name : String) : Prop :=
  ∃ value, members.get? name = some value ∧ value.truthy = true

namespace Client

variable {σ : Type} {c c' : Client σ} {action : Action} {fields : Json.Members}
  {triggerUnlock : Bool} {request : SealedRequest} {e : Error}

/-- From `c` to `c'`, a request was written under the session's next nonce. -/
structure Submits (c : Client σ) (action : Action) (request : SealedRequest) (c' : Client σ) :
    Prop where
  sendable : Outbound.sendable action = true
  reserves : c.session.Reserves request.envelope.nonce request.replyNonce c'.session
  session_eq : ∃ nonces, c'.session = { c.session with nonces }
  written : ∃ bytes, request.envelope.encode = .ok bytes ∧ c.link.send bytes = (.ok (), c'.link)
  client_eq : c' = { c with
    link := c'.link, session := c'.session, journal := c.journal ++ [.sent request.envelope] }

/-- From `c` to `c'`, a request was not written: nonces may be gone and a fault of the link used up,
but no message went out. -/
structure Forgoes (c c' : Client σ) : Prop where
  position_le : c.session.nonces.position ≤ c'.session.nonces.position
  session_eq : ∃ nonces, c'.session = { c.session with nonces }
  written_eq : c'.link.written = c.link.written
  client_eq : c' = { c with link := c'.link, session := c'.session }

/-- Only a request that may go out in a box has a text. -/
theorem encode_encrypted_eq_ok {box bytes : Bytes} {nonce : Nonce} {clientId : String}
    (h : (Outbound.encrypted action box nonce clientId triggerUnlock).encode = .ok bytes) :
    Outbound.sendable action = true := by
  unfold Outbound.encode at h
  split at h
  · rename_i he; cases he
  · rename_i he
    cases he
    split at h
    · assumption
    · cases h

/-- The pieces of writing a request, in their order. -/
theorem submit_eq (action : Action) (fields : Json.Members) (triggerUnlock : Bool) (c : Client σ) :
    submit action fields triggerUnlock c =
      match c.session.sealRequest action fields triggerUnlock with
      | (.error e, session) => .error e { c with session }
      | (.ok request, session) =>
        match request.envelope.encode with
        | .error e => .error e { c with session }
        | .ok bytes =>
          match c.link.send bytes with
          | (.error e, link) => .error e { c with session, link }
          | (.ok (), link) =>
            .ok request { c with session, link, journal := c.journal ++ [.sent request.envelope] } := by
  simp only [submit, bind_apply, onSession_eq]
  rcases c.session.sealRequest action fields triggerUnlock with ⟨_ | request, session⟩
  · rfl
  simp only [ofExcept_ok]
  rcases request.envelope.encode with _ | bytes
  · rfl
  simp only [ofExcept_ok, onLink_eq]
  rcases c.link.send bytes with ⟨_ | _, link⟩
  · rfl
  · rfl

theorem submit_eq_ok (h : submit action fields triggerUnlock c = .ok request c') :
    c.Submits action request c' := by
  rw [submit_eq] at h
  rcases hs : c.session.sealRequest action fields triggerUnlock with ⟨_ | request, session⟩ <;>
    simp only [hs] at h
  · cases h
  rcases he : request.envelope.encode with _ | bytes <;> simp only [he] at h
  · cases h
  rcases hl : c.link.send bytes with ⟨_ | _, link⟩ <;> simp only [hl] at h <;> cases h
  obtain ⟨hr, hn, box, nonce, hb⟩ := Session.sealRequest_eq_ok hs
  exact ⟨encode_encrypted_eq_ok (hb ▸ he), hr, hn, ⟨bytes, he, hl⟩, rfl⟩

theorem written_of_send_eq_ok {link link' : Link} {message : Bytes}
    (h : link.send message = (.ok (), link')) : link'.written = link.written ++ [message] := by
  unfold Link.send at h
  split at h
  · cases h
  · split at h <;> cases h <;> rfl

theorem writeFailure?_of_send_eq_ok {link link' : Link} {message : Bytes}
    (h : link.send message = (.ok (), link')) : link.writeFailure? = none := by
  unfold Link.send at h
  split at h
  · cases h
  · assumption

theorem written_of_send_eq_error {link link' : Link} {message : Bytes}
    (h : link.send message = (.error e, link')) : link'.written = link.written := by
  unfold Link.send at h
  split at h
  · cases h; rfl
  · split at h <;> cases h

theorem submit_eq_error (h : submit action fields triggerUnlock c = .error e c') :
    c.Forgoes c' := by
  rw [submit_eq] at h
  rcases hs : c.session.sealRequest action fields triggerUnlock with ⟨_ | request, session⟩ <;>
    simp only [hs] at h
  · cases h
    obtain ⟨hw, hn⟩ := Session.sealRequest_eq_error hs
    exact ⟨hw.position_le, hn, rfl, rfl⟩
  obtain ⟨hr, hn, -⟩ := Session.sealRequest_eq_ok hs
  have hle : c.session.nonces.position ≤ session.nonces.position := by
    rw [hr.position_eq]; omega
  rcases he : request.envelope.encode with _ | bytes <;> simp only [he] at h
  · cases h
    exact ⟨hle, hn, rfl, rfl⟩
  rcases hl : c.link.send bytes with ⟨_ | _, link⟩ <;> simp only [hl] at h <;> cases h
  exact ⟨hle, hn, written_of_send_eq_error hl, rfl⟩

theorem encode_of_sendable (h : Outbound.sendable action = true) (box : Bytes) (nonce : Nonce)
    (clientId : String) (triggerUnlock : Bool) :
    ∃ bytes, (Outbound.encrypted action box nonce clientId triggerUnlock).encode = .ok bytes :=
  ⟨_, if_pos h⟩

theorem exists_send_eq_ok {link : Link} (h : link.writeFailure? = none) (message : Bytes) :
    ∃ link', link.send message = (.ok (), link') := by
  unfold Link.send
  rw [h]
  simp only
  split <;> exact ⟨_, rfl⟩

/-- A request can be written after the key exchange if it may go out in a box, two nonces are left and
the link takes it. -/
theorem exists_submit_eq_ok {peer : PublicKey} {version : Option String}
    (hs : c.session.handshake = .established peer version)
    (hp : c.session.nonces.position + 2 ≤ Nonce.count) (ha : Outbound.sendable action = true)
    (hl : c.link.writeFailure? = none) :
    ∃ request sent, submit action fields triggerUnlock c = .ok request sent := by
  obtain ⟨request, session, hq⟩ :=
    Session.exists_sealRequest_eq_ok hs hp action fields triggerUnlock
  obtain ⟨-, -, box, nonce, he⟩ := Session.sealRequest_eq_ok hq
  obtain ⟨bytes, hb⟩ := encode_of_sendable ha box nonce c.session.clientId triggerUnlock
  obtain ⟨link, hk⟩ := exists_send_eq_ok hl bytes
  rw [submit_eq, hq]
  simp only [he, hb, hk]
  exact ⟨_, _, rfl⟩

/-- A client right after a key exchange, over the given link and with all its nonces left. -/
def connected (link : Link) : Client Unit where
  link
  session :=
    { clientId := "client"
      keys := .ofSecret (.ofNatLE 32 1)
      handshake := .established (KeyPair.ofSecret (.ofNatLE 32 2)).publicKey none
      nonces := .new (.ofNatLE 24 0) }
  registry := ⟨[], ()⟩
  config := ⟨"socket", "store", .ofSeconds 5, .ofSeconds 120, false⟩
  entropy := .ofBytes []
  databaseHash := none
  association := .unknown
  closed := false
  journal := []

theorem exists_submit_connected (link : Link) (action : Action) (hl : link.writeFailure? = none)
    (ha : Outbound.sendable action = true) :
    ∃ request sent, submit action [] false (connected link) = .ok request sent := by
  refine exists_submit_eq_ok rfl ?_ ha hl
  show Bytes.toNatLE (Bytes.ofNatLE 24 0) + 2 ≤ Nat.pow 256 24
  rw [Bytes.toNatLE_ofNatLE]
  decide

theorem checkMember_eq_ok_iff {body : Json.Members} {name text : String} (breach : Json → Breach) :
    checkMember body name text breach = .ok () ↔ body.Agrees name text := by
  unfold checkMember Json.Members.Agrees
  rcases body.get? name with _ | value
  · simp
  · simp [Json.asString?_eq_some_iff]

theorem reportsSuccess_iff {body : Json.Members} :
    reportsSuccess body = true ↔ body.Raises "success" := by
  unfold reportsSuccess Json.Members.Raises
  rcases body.get? "success" with _ | value
  · simp
  · simp

/-- The members of a decrypted payload pass if they name neither another action nor another nonce and
report success. -/
theorem checkReply_eq_ok_iff {nonce : Nonce} {opened body : Json.Members} :
    checkReply action nonce opened = .ok body ↔ opened = body ∧
      opened.Agrees "action" action.wireName ∧ opened.Agrees "nonce" nonce.toBase64 ∧
        opened.Raises "success" := by
  rw [← reportsSuccess_iff,
    ← checkMember_eq_ok_iff fun named => .namesAction action named.text,
    ← checkMember_eq_ok_iff fun _ => .foreignNonce action]
  unfold checkReply
  rcases checkMember opened "action" action.wireName _ with e | ⟨⟩
  · simp [bind, Except.bind]
  rcases checkMember opened "nonce" nonce.toBase64 _ with e | ⟨⟩
  · simp [bind, Except.bind]
  simp only [bind, Except.bind, true_and]
  split
  · rename_i hs
    simp [hs, pure, Except.pure]
  · rename_i hs
    simp [hs, throw, throwThe, MonadExceptOf.throw]

/-- A message settles a request if it is a box that opens under the nonce of the reply, with members
that pass. -/
theorem settle_eq_ok_iff {inbound : Inbound} {body : Json.Members} :
    settle action request inbound c = .ok body c' ↔
      ∃ reply, inbound = .encrypted reply ∧
        c.session.openReply reply request.replyNonce = .ok body ∧
        checkReply action request.replyNonce body = .ok body ∧
        c' = { c with journal := c.journal ++ [.accepted reply body] } := by
  constructor
  · intro h
    cases inbound with
    | encrypted reply =>
      simp only [settle, bind_apply, get_apply] at h
      rcases ho : c.session.openReply reply request.replyNonce with e | opened <;>
        simp only [ho, ofExcept_ok, ofExcept_error] at h
      · cases h
      rcases hk : checkReply action request.replyNonce opened with e | result <;>
        simp only [hk, ofExcept_ok, ofExcept_error] at h
      · cases h
      cases h
      obtain ⟨rfl, -⟩ := checkReply_eq_ok_iff.1 hk
      exact ⟨reply, rfl, ho, hk, rfl⟩
    | _ => cases h
  · rintro ⟨reply, rfl, ho, hk, rfl⟩
    simp only [settle, bind_apply, get_apply, ho, hk, ofExcept_ok, record_apply, pure_apply]

/-- A message that does not settle a request changes nothing. -/
theorem settle_eq_error {inbound : Inbound} (h : settle action request inbound c = .error e c') :
    c' = c := by
  cases inbound with
  | encrypted reply =>
    simp only [settle, bind_apply, get_apply] at h
    rcases ho : c.session.openReply reply request.replyNonce with e | opened <;>
      simp only [ho, ofExcept_ok, ofExcept_error] at h
    · cases h; rfl
    rcases hk : checkReply action request.replyNonce opened with e | result <;>
      simp only [hk, ofExcept_ok, ofExcept_error] at h
    · cases h; rfl
    · cases h
  | _ => cases h; rfl

end Client

end VaultLink
