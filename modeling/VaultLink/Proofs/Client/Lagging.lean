import VaultLink.Proofs.Client.Questions
import VaultLink.Proofs.Client.Verdicts
import VaultLink.Proofs.Wire.Pending

/-!
# A client that lags behind a signal

When a signal arrives in one piece with another message (`straggle`), the client can take the message and
leave the signal at hand (`lagging`). What it asks for then is answered as if the signal had come after
the request (`roundTrip_lagging`).
-/

namespace VaultLink

namespace Client

variable {σ : Type} {c d : Client σ} {action : Action} {fields body : Json.Members}
  {triggerUnlock : Bool} {record : Association} {peer : PublicKey} {place : Nat}

/-- A signal, as the proxy writes it. -/
def lockBytes : Bytes := Json.render (.object (Inbound.signalMembers .databaseLocked))

/-- An object that is no message arrives, and a signal in the same piece. -/
def straggle : Move σ := .proxy [.data ([0x7B, 0x7D] ++ lockBytes)] 0 none []

/-- The client that has read them and has not taken the signal. -/
def lagging (c : Client σ) : Client σ :=
  { c with link := { c.link with
      buffer := lockBytes, arrivals := [], clock := 0, writeFault := none, answers := [] } }

theorem holds_lagging (c : Client σ) : c.lagging.link.Holds .databaseLocked := by
  obtain ⟨text, hsplit, hdec⟩ : ∃ text, Frame.split lockBytes = .message text [] ∧
      Inbound.decode text = .ok (.signal .databaseLocked) := ⟨_, rfl, rfl⟩
  exact ⟨text, [], hsplit, hdec⟩

/-- A request is written over any link that takes it. -/
theorem submit_relink {request : SealedRequest} {sent : Client σ} {link : Link}
    (h : submit action fields triggerUnlock c = .ok request sent) (hl : link.writeFailure? = none) :
    ∃ bytes, c.link.send bytes = (.ok (), sent.link) ∧
      submit action fields triggerUnlock { c with link } =
        .ok request { sent with link := (link.send bytes).2 } := by
  rw [submit_eq] at h
  rcases hs : c.session.sealRequest action fields triggerUnlock with ⟨e | request, session⟩ <;>
    simp only [hs] at h
  · cases h
  rcases he : request.envelope.encode with e | bytes <;> simp only [he] at h
  · cases h
  rcases hsend : c.link.send bytes with ⟨e | _, sentLink⟩ <;> simp only [hsend] at h <;> cases h
  obtain ⟨link', hlink⟩ := exists_send_eq_ok hl bytes
  refine ⟨bytes, hsend, ?_⟩
  rw [submit_eq]
  simp only [hs, he, hlink]

/-- A round trip that returns leaves a link that its wait left. -/
theorem sound_of_roundTrip {request : SealedRequest} {sent : Client σ} (ho : c.closed = false)
    (hw : submit action fields triggerUnlock c = .ok request sent) (hs : sent.link.Sound)
    (h : roundTrip action fields triggerUnlock c = .ok body d) : d.link.Sound := by
  rcases hd : sent.deadline? (timeoutFor c.config action triggerUnlock) with _ | deadline
  · rw [roundTrip_of_no_deadline ho hw hd] at h
    cases h
  obtain ⟨signals, received, link, hb⟩ := Link.exists_brings deadline sent.link
  rw [roundTrip_of_brings ho hw hd hb, closing_eq_ok_iff] at h
  obtain ⟨inbound, heard, hi, hset⟩ := bind_eq_ok h
  rcases hc : conclude action (timeoutFor c.config action triggerUnlock) received with e | inbound' <;>
    rw [hc] at hi <;> cases hi
  obtain ⟨reply, -, -, -, rfl⟩ := settle_eq_ok_iff.1 hset
  exact hs.of_brings hb

variable [AssociationStore σ]

/-- Listening fails with the object and leaves the signal. -/
theorem exists_nextEvent_straggle (h : Idle c peer place) :
    ∃ e, nextEvent (straggle.apply c) = .error e c.lagging := by
  obtain ⟨e, hdec⟩ : ∃ e, Inbound.decode "\x7b\x7d" = .error e := ⟨_, rfl⟩
  have hreceive : (straggle.apply c).link.receive none = (.message "\x7b\x7d", c.lagging.link) := by
    show Link.receive none { c.link with
      arrivals := [.data ([0x7B, 0x7D] ++ lockBytes)], clock := 0, writeFault := none, answers := [] } = _
    rw [Link.receive, h.buffer_eq]
    rfl
  have hnext : nextEventFrom ((straggle.apply c).link.volume + 1) (straggle.apply c) =
      .error e c.lagging := by
    rw [nextEventFrom_succ hreceive]
    simp only [hdec]
    rfl
  have hopen : (straggle.apply c).closed = false := h.closed_eq
  exact ⟨e, (bind_of_ok (ensureOpen_of_open hopen) _).trans hnext⟩

theorem run_straggle (h : Idle c peer place) :
    run [straggle, .call .nextEvent] c = c.lagging := by
  obtain ⟨e, hnext⟩ := exists_nextEvent_straggle h
  exact after_of_error hnext

/-- A reply that comes after a signal is accepted just as well if the signal is at hand already, and
leaves a link that takes another message. -/
theorem roundTrip_lagging {signals : List Signal} {last : Json.Members} (hb : c.link.buffer = [])
    (h : roundTrip action fields triggerUnlock
      ((prompt (.databaseLocked :: signals) last).apply c) = .ok body d) :
    roundTrip action fields triggerUnlock ((prompt signals last).apply c.lagging) = .ok body d ∧
      d.link.Sound := by
  rcases ho : ((prompt (.databaseLocked :: signals) last).apply c).closed with _ | _
  · rcases hw : submit action fields triggerUnlock ((prompt (.databaseLocked :: signals) last).apply c)
      with ⟨request, sent⟩ | ⟨e, b⟩
    · obtain ⟨bytes, hsend, hw'⟩ := submit_relink hw
        (show ((prompt signals last).apply c.lagging).link.writeFailure? = none from rfl)
      have hsound : sent.link.Sound := by
        rw [send_prompt hsend]
        exact ⟨rfl, by simp [Link.announced]⟩
      refine ⟨?_, sound_of_roundTrip ho hw hsound h⟩
      generalize hnext : (Link.send bytes ((prompt signals last).apply c.lagging).link).2 = next at hw'
      have hunread : sent.link =
          { next with buffer := [], arrivals := .data next.buffer :: next.arrivals } := by
        refine (send_prompt hsend).trans ?_
        rw [← hnext, ← hb]
        rfl
      rcases hd : sent.deadline? (timeoutFor c.config action triggerUnlock) with _ | deadline
      · rw [roundTrip_of_no_deadline ho hw hd] at h
        cases h
      obtain ⟨heard, received, link, hbrings⟩ := Link.exists_brings deadline sent.link
      rw [roundTrip_of_brings ho hw hd hbrings] at h
      rw [hunread] at hbrings
      have hd' : deadline? (timeoutFor c.config action triggerUnlock) { sent with link := next } =
          some deadline := by
        rw [← hd, deadline?, deadline?, hunread]
      exact (roundTrip_of_brings (c := (prompt signals last).apply c.lagging) ho hw' hd'
        hbrings.of_unread).trans h
    · rw [roundTrip_of_submit_error ho hw] at h
      cases h
  · rw [roundTrip_of_closed ho] at h
    cases h

/-- Once the association was made sure of, the privileged request is written if it can be. -/
theorem exists_sent_of_ensureAssociated {operation : Operation}
    (he : operation.ensures = true) (hne : operation ≠ .ensureAssociated)
    (hc : ensureAssociated c = .ok record d) (ho : d.closed = false)
    (hp : d.session.requirePeer = .ok peer) (hn : d.session.nonces.position + 2 ≤ Nonce.count)
    (hl : d.link.writeFailure? = none) :
    ∃ m future, (perform operation c).journal = d.journal ++ .sent m :: future ∧
      m.action.requiresAssociation = true := by
  obtain ⟨action, f, ha, hcall, hasks⟩ := ensuresThenAsks_call (σ := σ) he hne
  obtain ⟨fields, triggerUnlock, haside, -⟩ := hasks record d
  have hsendable : Outbound.sendable action = true := by
    cases action <;> first | rfl | cases ha
  obtain ⟨version, hs⟩ := Session.requirePeer_eq_ok hp
  have hsubmit : ∃ request sent, submit action fields triggerUnlock d = .ok request sent :=
    exists_submit_eq_ok hs hn hsendable hl
  obtain ⟨request, sent, hw⟩ := hsubmit
  have hsub := submit_eq_ok hw
  obtain ⟨bytes, hb, hsend⟩ := hsub.written
  have haction := action_of_submit hw
  obtain ⟨signals, htrip⟩ := exists_trip_awaitReply
    (.of_sent haction hsub.reserves hb hsend hsub.client_eq) hsub.reserves.reply_eq
    (timeoutFor d.config action triggerUnlock)
  rw [← roundTrip_of_submit ho hw] at htrip
  obtain ⟨answer, hpass, -⟩ := exists_passes_of_trip htrip
  refine ⟨request.envelope, signals.map .signal ++ answerNotes answer, ?_, haction ▸ ha⟩
  rw [← after_call, hcall, after_bind_of_ok hc, haside.journal_eq, hpass.journal_eq]
  rfl

/-- A client that stands for a record can come to lag. -/
theorem exists_lagging_standsFor :
    ∃ (moves : List (Move MemoryStore)) (peer : PublicKey) (c : Client MemoryStore)
      (record : Association), run moves (new 0 usual ⟨[], {}⟩ (.ofBytes [])) = c.lagging ∧
        Idle c peer 4 ∧ StandsFor c.lagging record := by
  obtain ⟨first, peer, b, hb, hidle, hregistry, -⟩ :=
    exists_introduced (⟨[], {}⟩ : Registry MemoryStore)
  obtain ⟨second, record, c, hassociate, hidle, hstands⟩ :=
    exists_associate_prompt hidle (by decide) hregistry
  refine ⟨[prompt [] first, .call .shakeHands] ++ [prompt [] second, .call .associate] ++
    [straggle, .call .nextEvent], peer, c, record, ?_, hidle, hstands.validated,
    hstands.databaseHash_eq, hstands.lookup_eq⟩
  generalize new 0 usual (⟨[], {}⟩ : Registry MemoryStore) (.ofBytes []) = start at hb ⊢
  have hc : run ([prompt [] first, .call .shakeHands] ++ [prompt [] second, .call .associate]) start =
      c := by
    rw [run_prompt_call, hb]
    exact after_of_ok hassociate
  rw [run_append, hc, run_straggle hidle]

/-- It then writes a privileged request before anything else. -/
theorem exists_sent_lagging {operation : Operation}
    (h : Idle c peer place) (hp : place + 2 ≤ Nonce.count) (hs : StandsFor c.lagging record)
    (he : operation.ensures = true) (hne : operation ≠ .ensureAssociated) :
    ∃ m future, (perform operation c.lagging).journal = c.lagging.journal ++ .sent m :: future ∧
      m.action.requiresAssociation = true :=
  exists_sent_of_ensureAssociated he hne (hs.ensureAssociated_eq h.requirePeer_eq).1 h.closed_eq
    h.requirePeer_eq (h.position_eq ▸ hp) rfl

/-- A client that lags and knows the database can make sure of a record by a check alone. -/
theorem exists_ensureAssociated_lagging (h : Idle c peer place) (hp : place + 2 ≤ Nonce.count)
    (hh : c.databaseHash = some record.databaseId)
    (hl : c.registry.lookup record.databaseId = some record) (ha : c.association ≠ .validated) :
    ∃ last d reply body signals message,
      ensureAssociated ((prompt [] last).apply c.lagging) = .ok record d ∧ Idle d peer (place + 2) ∧
        d.link.Sound ∧ reply.action = .testAssociate ∧
        d.journal = c.journal ++ passage message signals (some (reply, body)) := by
  have hbody : Table.Ordered [("hash", Json.string record.databaseId), ("success", .string "true")] :=
    Table.ordered_of_names (show ["hash", "success"].Pairwise (· < ·) by decide)
  have hconfirms (nonce : Nonce) : Confirms .testAssociate nonce
      [("hash", .string record.databaseId), ("success", .string "true")] := .of_unnamed rfl rfl rfl _ _
  obtain ⟨last, d, hr, -, hidle⟩ := exists_roundTrip_boxed h hp rfl
    Json.AreTexts.nil.cons.cons hbody hconfirms (checkFields record) false [.databaseLocked]
  obtain ⟨hround, hsound⟩ := roundTrip_lagging h.buffer_eq hr
  obtain ⟨message, signals, htrip⟩ :=
    exists_trip_roundTrip .testAssociate (checkFields record) false ((prompt [] last).apply c.lagging)
  rw [hround] at htrip
  obtain ⟨reply, hpass⟩ := htrip
  have hchecks : Checks ((prompt [] last).apply c.lagging) record.databaseId record
      ((prompt [] last).apply c.lagging) := .of_known h.requirePeer_eq hh hl ha
  have haccepted : Verdict.ofReply record
      [("hash", .string record.databaseId), ("success", .string "true")] = .accepted := by
    simp [Verdict.ofReply, named?, reported?, Table.get?, Json.asString?]
  have hensure := hchecks.ensureAssociated_eq
  rw [testAssociate_of_ok (c := (prompt [] last).apply c.lagging) h.requirePeer_eq hround, judgeTest_eq,
    haccepted] at hensure
  exact ⟨last, _, reply, _, signals, message, hensure, hidle.congr rfl rfl rfl rfl, hsound,
    hpass.reply_action _ rfl, hpass.journal_eq⟩

end Client

end VaultLink
