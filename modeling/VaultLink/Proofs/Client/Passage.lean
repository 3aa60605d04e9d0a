import VaultLink.Proofs.Client.KeyExchange
import VaultLink.Proofs.Client.RoundTrip
import VaultLink.Proofs.Wire.Pending

/-!
# What an exchange leaves behind

An exchange about an action writes its message or not, hears signals, and accepts a reply about the
action or none (`Conveys`). What the client knows of the database then stands unless there were
signals (`Passes`). Every round trip is such an exchange (`exists_trip_roundTrip`), and so are the key
exchange (`exists_passes_shakeHands`) and listening (`exists_passes_nextEvent`).
-/

namespace VaultLink.Client

variable {σ α : Type} {b c c' d : Client σ} {action : Action} {message : Option Outbound}
  {signals : List Signal} {answer : Option (BoxedReply × Json.Members)}

/-- The note of a reply that was accepted, if one was. -/
def answerNotes (accepted : Option (BoxedReply × Json.Members)) : List Note :=
  (accepted.map fun answer => .accepted answer.1 answer.2).toList

/-- The notes of an exchange: the message that was written, the signals that came after it and the
reply that was accepted. -/
def passage (message : Option Outbound) (signals : List Signal)
    (answer : Option (BoxedReply × Json.Members)) : List Note :=
  (message.map .sent).toList ++ (signals.map .signal ++ answerNotes answer)

/-- From `c` to `c'`, nothing passed over the connection. -/
structure Aside (c c' : Client σ) : Prop where
  link_eq : c'.link = c.link
  session_eq : c'.session = c.session
  closed_eq : c'.closed = c.closed
  journal_eq : c'.journal = c.journal

theorem Aside.refl (c : Client σ) : Aside c c := ⟨rfl, rfl, rfl, rfl⟩

theorem Aside.trans (h : Aside c c') (h' : Aside c' d) : Aside c d :=
  ⟨h'.1.trans h.1, h'.2.trans h.2, h'.3.trans h.3, h'.4.trans h.4⟩

/-- From `c` to `c'`, an exchange about an action passed over the connection. Its message takes a new
nonce and the one after it for the reply. -/
structure Conveys (action : Action) (c : Client σ) (message : Option Outbound)
    (signals : List Signal) (answer : Option (BoxedReply × Json.Members)) (c' : Client σ) : Prop where
  journal_eq : c'.journal = c.journal ++ passage message signals answer
  written_eq : c'.link.written.map .ok =
    c.link.written.map .ok ++ message.toList.map Outbound.encode
  position_le : c.session.nonces.position ≤ c'.session.nonces.position
  message_action : ∀ m ∈ message, m.action = action
  message_nonce : ∀ m ∈ message, c.session.nonces.position ≤ m.nonce.toNatLE ∧
    m.nonce.toNatLE + 2 ≤ c'.session.nonces.position
  reply_action : ∀ a ∈ answer, a.1.action = action
  reply_nonce : ∀ a ∈ answer, ∃ m, message = some m ∧ m.nonce.increment = some a.1.nonce

/-- An exchange after which what was known of the database and the association stands unless there
were signals. -/
structure Passes (action : Action) (c : Client σ) (message : Option Outbound)
    (signals : List Signal) (answer : Option (BoxedReply × Json.Members)) (c' : Client σ) : Prop
    extends Conveys action c message signals answer c' where
  databaseHash_eq : c'.databaseHash = if signals.isEmpty then c.databaseHash else none
  association_eq : c'.association = if signals.isEmpty then c.association else .unknown

theorem Conveys.aside (h : Conveys action c message signals answer c') (ha : Aside c' d) :
    Conveys action c message signals answer d := by
  obtain ⟨hl, hs, -, hj⟩ := ha
  refine ⟨hj.trans h.journal_eq, ?_, ?_, h.message_action, ?_, h.reply_action, h.reply_nonce⟩
  · rw [hl, h.written_eq]
  · rw [hs]
    exact h.position_le
  · rw [hs]
    exact h.message_nonce

namespace Passes

/-- An exchange is told by the journal, by what was written and which nonces were taken, and by what
is known of the database. -/
theorem congr (h : Passes action c message signals answer c') (hj : d.journal = c'.journal)
    (hw : d.link.written = c'.link.written) (hn : d.session.nonces = c'.session.nonces)
    (hd : d.databaseHash = c'.databaseHash) (ha : d.association = c'.association) :
    Passes action c message signals answer d where
  journal_eq := hj.trans h.journal_eq
  written_eq := by rw [hw, h.written_eq]
  position_le := by rw [hn]; exact h.position_le
  message_action := h.message_action
  message_nonce := by rw [hn]; exact h.message_nonce
  reply_action := h.reply_action
  reply_nonce := h.reply_nonce
  databaseHash_eq := hd.trans h.databaseHash_eq
  association_eq := ha.trans h.association_eq

/-- Neither does it matter for an exchange what else changed before. -/
theorem of_start (h : Passes action b message signals answer c') (hj : b.journal = c.journal)
    (hw : b.link.written = c.link.written) (hn : b.session.nonces = c.session.nonces)
    (hd : b.databaseHash = c.databaseHash) (ha : b.association = c.association) :
    Passes action c message signals answer c' where
  journal_eq := by rw [← hj, h.journal_eq]
  written_eq := by rw [← hw, h.written_eq]
  position_le := by rw [← hn]; exact h.position_le
  message_action := h.message_action
  message_nonce := by rw [← hn]; exact h.message_nonce
  reply_action := h.reply_action
  reply_nonce := h.reply_nonce
  databaseHash_eq := by rw [← hd, h.databaseHash_eq]
  association_eq := by rw [← ha, h.association_eq]

/-- Nonces may be wasted, but nothing passed. -/
theorem of_silent (action : Action) (hj : c'.journal = c.journal)
    (hw : c'.link.written = c.link.written)
    (hp : c.session.nonces.position ≤ c'.session.nonces.position)
    (hd : c'.databaseHash = c.databaseHash) (ha : c'.association = c.association) :
    Passes action c none [] none c' where
  journal_eq := hj.trans (List.append_nil _).symm
  written_eq := by rw [hw, Option.toList_none, List.map_nil, List.append_nil]
  position_le := hp
  message_action := nofun
  message_nonce := nofun
  reply_action := nofun
  reply_nonce := nofun
  databaseHash_eq := hd
  association_eq := ha

theorem silent (action : Action) (c : Client σ) : Passes action c none [] none c :=
  .of_silent action rfl rfl (Nat.le_refl _) rfl rfl

/-- A message went out under the session's next nonce. -/
theorem of_sent {sent : Client σ} {m : Outbound} {reply : Nonce} {bytes : Bytes}
    (hm : m.action = action) (hr : c.session.Reserves m.nonce reply sent.session)
    (he : m.encode = .ok bytes) (hl : c.link.send bytes = (.ok (), sent.link))
    (hc : sent = { c with
      link := sent.link, session := sent.session, journal := c.journal ++ [.sent m] }) :
    Passes action c (some m) [] none sent where
  journal_eq := by rw [hc]; rfl
  written_eq := by
    rw [written_of_send_eq_ok hl, List.map_append, Option.toList_some, List.map_singleton,
      List.map_singleton, he]
  position_le := by rw [hr.position_eq]; exact Nat.le_add_right _ 2
  message_action := by
    rintro m' ⟨⟩
    exact hm
  message_nonce := by
    rintro m' ⟨⟩
    rw [hr.position_eq, hr.request_eq]
    exact ⟨Nat.le_refl _, Nat.le_refl _⟩
  reply_action := nofun
  reply_nonce := nofun
  databaseHash_eq := by rw [hc]; rfl
  association_eq := by rw [hc]; rfl

/-- After the message, signals are heard. -/
theorem hear (h : Passes action c message [] none c') (signals : List Signal) {link : Link}
    (hw : link.written = c'.link.written) :
    Passes action c message signals none (c'.heard signals link) where
  journal_eq := by
    simp only [heard, h.journal_eq, passage, answerNotes, Option.map_none, Option.toList_none,
      List.map_nil, List.append_nil, List.append_assoc]
  written_eq := by
    rw [← h.written_eq, ← hw]
    rfl
  position_le := h.position_le
  message_action := h.message_action
  message_nonce := h.message_nonce
  reply_action := nofun
  reply_nonce := nofun
  databaseHash_eq := by
    rw [← show c'.databaseHash = c.databaseHash from h.databaseHash_eq]
    rfl
  association_eq := by
    rw [← show c'.association = c.association from h.association_eq]
    rfl

/-- After the signals, a reply to the message is accepted. -/
theorem accept {m : Outbound} (h : Passes action c (some m) signals none c') {reply : BoxedReply}
    (ha : reply.action = action) (hn : m.nonce.increment = some reply.nonce) (body : Json.Members) :
    Passes action c (some m) signals (some (reply, body))
      { c' with journal := c'.journal ++ [.accepted reply body] } where
  journal_eq := by
    simp only [h.journal_eq, passage, answerNotes, Option.map_none, Option.toList_none,
      Option.map_some, Option.toList_some, List.append_assoc, List.append_nil]
  written_eq := h.written_eq
  position_le := h.position_le
  message_action := h.message_action
  message_nonce := h.message_nonce
  reply_action := by
    rintro a ⟨⟩
    exact ha
  reply_nonce := by
    rintro a ⟨⟩
    exact ⟨m, rfl, hn⟩
  databaseHash_eq := h.databaseHash_eq
  association_eq := h.association_eq

/-- A client that is still taken for validated heard no signal. -/
theorem of_validated (h : Passes action c message signals answer c')
    (hv : c'.association = .validated) :
    c.association = .validated ∧ signals = [] ∧ c'.databaseHash = c.databaseHash := by
  have hd := h.databaseHash_eq
  have ha := h.association_eq
  cases signals with
  | nil => exact ⟨ha.symm.trans hv, rfl, hd⟩
  | cons => cases ha.symm.trans hv

end Passes

/-! ## Round trips -/

section RoundTrips

variable {fields : Json.Members} {triggerUnlock : Bool} {request : SealedRequest}

/-- What a round trip comes to: the members that it gives are those of the reply that was accepted. -/
def Trip (action : Action) (c : Client σ) (message : Option Outbound) (signals : List Signal) :
    EStateM.Result Error (Client σ) Json.Members → Prop
  | .ok body d => ∃ reply, Passes action c message signals (some (reply, body)) d
  | .error _ d => Passes action c message signals none d

theorem action_of_submit (h : submit action fields triggerUnlock c = .ok request c') :
    request.envelope.action = action := by
  rw [submit_eq] at h
  rcases hs : c.session.sealRequest action fields triggerUnlock with ⟨_ | request, session⟩ <;>
    simp only [hs] at h
  · cases h
  rcases he : request.envelope.encode with _ | bytes <;> simp only [he] at h
  · cases h
  rcases hl : c.link.send bytes with ⟨_ | _, link⟩ <;> simp only [hl] at h <;> cases h
  obtain ⟨-, -, box, nonce, hb⟩ := Session.sealRequest_eq_ok hs
  rw [hb]
  rfl

/-- However the wait for the reply ended, the reply was accepted or there is none. -/
theorem trip_settle {heard : Client σ}
    (h : Passes action c (some request.envelope) signals none heard)
    (hn : request.envelope.nonce.increment = some request.replyNonce)
    {result : Except Error Inbound} (hi : ∀ inbound, result = .ok inbound → inbound.action = action) :
    Trip action c (some request.envelope) signals
      (closing (ofExcept result >>= settle action request) heard) := by
  rcases result with e | inbound
  · rw [closing_of_error (bind_of_error (ofExcept_error e heard) _)]
    exact h.congr rfl rfl rfl rfl rfl
  · rcases hset : settle action request inbound heard with ⟨body, d⟩ | ⟨e, d⟩
    · obtain ⟨reply, rfl, hopen, -, rfl⟩ := settle_eq_ok_iff.1 hset
      obtain ⟨-, -, -, -, hr, -⟩ := Session.openReply_eq_ok_iff.1 hopen
      rw [closing_of_ok ((bind_of_ok (ofExcept_ok _ heard) _).trans hset)]
      exact ⟨reply, h.accept (hi _ rfl) (hr ▸ hn) body⟩
    · rw [closing_of_error ((bind_of_ok (ofExcept_ok _ heard) _).trans hset), settle_eq_error hset]
      exact h.congr rfl rfl rfl rfl rfl

/-- A request that is not written leaves the link as it was, but for a fault that is used up. -/
theorem undisturbed_of_submit_error {e : Error} {d : Client σ}
    (h : submit action fields triggerUnlock c = .error e d) : c.link.Undisturbed d.link := by
  rw [submit_eq] at h
  rcases hs : c.session.sealRequest action fields triggerUnlock with ⟨_ | request, session⟩ <;>
    simp only [hs] at h
  · cases h
    exact .refl _
  rcases he : request.envelope.encode with _ | bytes <;> simp only [he] at h
  · cases h
    exact .refl _
  rcases hl : c.link.send bytes with ⟨_ | _, link⟩ <;> simp only [hl] at h <;> cases h
  exact Link.undisturbed_of_send hl

/-- Once its request is written, a round trip takes the signals that the link brings and then the reply,
unless it fails without having waited. -/
theorem exists_trip_awaitReply_brings {sent : Client σ}
    (h : Passes action c (some request.envelope) [] none sent)
    (hn : request.envelope.nonce.increment = some request.replyNonce) (wait : Duration) :
    ∃ signals, Trip action c (some request.envelope) signals
        (closing (awaitReply action wait >>= settle action request) sent) ∧
      ((∃ deadline received link, sent.link.Brings deadline signals received link) ∨
        signals = [] ∧ ∃ e d, closing (awaitReply action wait >>= settle action request) sent =
          .error e d ∧ sent.link.Undisturbed d.link) := by
  rcases hd : sent.deadline? wait with _ | deadline
  · rw [closing_of_error (bind_of_error (awaitReply_of_no_deadline hd) _)]
    exact ⟨[], h.congr rfl rfl rfl rfl rfl, .inr ⟨rfl, _, _, rfl, .refl _⟩⟩
  · obtain ⟨signals, received, link, hb⟩ := Link.exists_brings deadline sent.link
    have hwaited : closing (awaitReply action wait >>= settle action request) sent =
        closing (ofExcept (conclude action wait received) >>= settle action request)
          (sent.heard signals link) := by
      simp only [closing, bind_apply, awaitReply_of_deadline hd hb]
    rw [hwaited]
    refine ⟨signals, trip_settle (h.hear signals hb.written_eq) hn fun inbound hi => ?_,
      .inl ⟨deadline, received, link, hb⟩⟩
    obtain ⟨-, -, -, ha⟩ := conclude_eq_ok_iff.1 hi
    exact ha

theorem exists_trip_awaitReply {sent : Client σ}
    (h : Passes action c (some request.envelope) [] none sent)
    (hn : request.envelope.nonce.increment = some request.replyNonce) (wait : Duration) :
    ∃ signals, Trip action c (some request.envelope) signals
      (closing (awaitReply action wait >>= settle action request) sent) := by
  obtain ⟨signals, htrip, -⟩ := exists_trip_awaitReply_brings h hn wait
  exact ⟨signals, htrip⟩

theorem exists_trip_roundTrip_brings (action : Action) (fields : Json.Members) (triggerUnlock : Bool)
    (c : Client σ) :
    ∃ message signals, Trip action c message signals (roundTrip action fields triggerUnlock c) ∧
      ((∃ request sent deadline received link, message = some request.envelope ∧
          submit action fields triggerUnlock c = .ok request sent ∧
          sent.link.Brings deadline signals received link) ∨
        signals = [] ∧ ∃ e d, roundTrip action fields triggerUnlock c = .error e d ∧
          c.link.Undisturbed d.link) := by
  rcases ho : c.closed with _ | _
  · rcases hw : submit action fields triggerUnlock c with ⟨request, sent⟩ | ⟨e, d⟩
    · have hsub := submit_eq_ok hw
      obtain ⟨bytes, he, hl⟩ := hsub.written
      rw [roundTrip_of_submit ho hw]
      obtain ⟨signals, htrip, hs⟩ := exists_trip_awaitReply_brings
        (.of_sent (action_of_submit hw) hsub.reserves he hl hsub.client_eq) hsub.reserves.reply_eq
        (timeoutFor c.config action triggerUnlock)
      exact ⟨_, signals, htrip, hs.imp
        (fun ⟨deadline, received, link, hb⟩ => ⟨request, sent, deadline, received, link, rfl, rfl, hb⟩)
        fun ⟨hnone, e, d, hr, hu⟩ => ⟨hnone, e, d, hr, (Link.undisturbed_of_send hl).trans hu⟩⟩
    · have hf := submit_eq_error hw
      have hc := hf.client_eq
      rw [roundTrip_of_submit_error ho hw]
      have hundisturbed := undisturbed_of_submit_error hw
      exact ⟨none, [], Passes.of_silent action (by rw [hc]) hf.written_eq hf.position_le (by rw [hc])
        (by rw [hc]), .inr ⟨rfl, _, _, rfl, hundisturbed⟩⟩
  · rw [roundTrip, bind_of_error (ensureOpen_of_closed ho)]
    exact ⟨none, [], .silent action c, .inr ⟨rfl, _, _, rfl, .refl _⟩⟩

theorem exists_trip_roundTrip (action : Action) (fields : Json.Members) (triggerUnlock : Bool)
    (c : Client σ) :
    ∃ message signals, Trip action c message signals (roundTrip action fields triggerUnlock c) := by
  obtain ⟨message, signals, htrip, -⟩ := exists_trip_roundTrip_brings action fields triggerUnlock c
  exact ⟨message, signals, htrip⟩

/-- What a round trip comes to is an exchange, with no reply accepted if it failed. -/
theorem exists_passes_of_trip {message : Option Outbound} {signals : List Signal}
    (h : Trip action c message signals (roundTrip action fields triggerUnlock c)) :
    ∃ answer, Passes action c message signals answer
        (after (roundTrip action fields triggerUnlock) c) ∧
      ∀ e d, roundTrip action fields triggerUnlock c = .error e d → answer = none := by
  rcases hr : roundTrip action fields triggerUnlock c with ⟨body, d⟩ | ⟨e, d⟩ <;> rw [hr] at h
  · obtain ⟨reply, hpass⟩ := h
    exact ⟨_, after_of_ok hr ▸ hpass, fun _ _ he => by cases he⟩
  · exact ⟨none, after_of_error hr ▸ h, fun _ _ _ => rfl⟩

end RoundTrips

/-! ## The key exchange and listening -/

theorem exists_passes_shakeHands (c : Client σ) :
    ∃ message signals, Passes .changePublicKeys c message signals none (after shakeHands c) := by
  rcases ho : c.closed with _ | _
  · rcases hk : offerKey c with ⟨⟨⟩, sent⟩ | ⟨e, d⟩
    · obtain ⟨m, hoff, hm⟩ := offerKey_eq_ok hk
      obtain ⟨reply, hr, -⟩ := hoff.reserves
      obtain ⟨bytes, he, hl⟩ := hoff.written
      obtain ⟨signals, link, session, closed, ha, hn, hw⟩ := takeKey_cases sent
      have hafter : after shakeHands c = after takeKey sent := by
        rw [after, shakeHands, bind_of_ok (ensureOpen_of_open ho), bind_of_ok hk]
        rfl
      have hsent : Passes .changePublicKeys c (some m) [] none sent :=
        .of_sent hm hr he hl hoff.client_eq
      refine ⟨some m, signals, ?_⟩
      rw [hafter, ha]
      exact (hsent.hear signals hw).congr rfl rfl hn rfl rfl
    · obtain ⟨hp, hw, session, link, closed, hd⟩ := offerKey_eq_error hk
      have h : after shakeHands c = d := by
        rw [shakeHands, after_of_error ((bind_of_ok (ensureOpen_of_open ho) _).trans
          (bind_of_error hk _))]
      refine ⟨none, [], h ▸ .of_silent _ ?_ hw hp ?_ ?_⟩ <;> rw [hd]
  · rw [shakeHands, after_ensureOpen_of_closed ho]
    exact ⟨none, [], .silent _ c⟩

theorem exists_passes_nextEventFrom (action : Action) (fuel : Nat) (c : Client σ) :
    ∃ signals, Passes action c none signals none (after (nextEventFrom fuel) c) := by
  induction fuel generalizing c with
  | zero => exact ⟨[], .silent action c⟩
  | succ fuel ih =>
    rcases hr : c.link.receive none with ⟨received, link⟩
    have hw : link.written = c.link.written := by cases hr; rfl
    have hstop : Passes action c none [] none { c with link } :=
      (Passes.silent action c).congr rfl hw rfl rfl rfl
    rw [after, nextEventFrom_succ hr]
    cases received with
    | late | never | failed => exact ⟨[], hstop.congr rfl rfl rfl rfl rfl⟩
    | message text =>
      simp only
      rcases Inbound.decode text with e | inbound
      · exact ⟨[], hstop⟩
      · cases inbound with
        | signal s => exact ⟨[s], (Passes.silent action c).hear [s] hw⟩
        | keyExchange | encrypted | failure =>
          obtain ⟨signals, h⟩ := ih { c with link }
          exact ⟨signals, h.of_start rfl hw rfl rfl rfl⟩

theorem exists_passes_nextEvent (action : Action) (c : Client σ) :
    ∃ signals, Passes action c none signals none (after nextEvent c) := by
  rcases ho : c.closed with _ | _
  · have h : after nextEvent c = after (nextEventFrom (c.link.volume + 1)) c := by
      rw [after, nextEvent, bind_of_ok (ensureOpen_of_open ho)]
      rfl
    rw [h]
    exact exists_passes_nextEventFrom action _ c
  · rw [nextEvent, after_ensureOpen_of_closed ho]
    exact ⟨[], .silent action c⟩

end VaultLink.Client
