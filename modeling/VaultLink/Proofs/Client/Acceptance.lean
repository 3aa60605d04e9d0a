import VaultLink.Proofs.Client.Prompting

/-!
# Which replies are accepted

A round trip returns members exactly if its link brings, before the deadline, signals and then a reply that
answers the very request that was written, with these members in it (`roundTrip_accepts`). In every other
case it fails, and the client that it leaves knows nothing of what came in place of the reply.
-/

namespace VaultLink

open Json (AreTexts)

namespace Client

variable {σ : Type} {c sent : Client σ} {action : Action} {fields : Json.Members}
  {triggerUnlock : Bool} {request : SealedRequest}

/-- Before the deadline of a wait that starts now, the link brings signals and then an answer to the
request that went out under a nonce. -/
def IsAnswered (c : Client σ) (wait : Duration) (keys : KeyPair) (peer : PublicKey)
    (action : Action) (nonce : Nonce) (body : Json.Members) : Prop :=
  ∃ deadline signals text link, c.deadline? wait = some deadline ∧
    c.link.Brings deadline signals (.message text) link ∧ Answers keys peer action nonce text body

/-- A round trip whose request was written returns members exactly if the request is answered with
these members. Otherwise it fails, and the client is the one that wrote the request and heard some
signals, closed or not: nothing that came in place of the reply stays. -/
theorem roundTrip_accepts (ho : c.closed = false) {peer : PublicKey} {version : Option String}
    (hs : c.session.handshake = .established peer version)
    (hw : submit action fields triggerUnlock c = .ok request sent) :
    (∀ body, (∃ c', roundTrip action fields triggerUnlock c = .ok body c') ↔
      sent.IsAnswered (timeoutFor c.config action triggerUnlock) c.session.keys peer action
        request.envelope.nonce body) ∧
    ((∀ body, ¬ sent.IsAnswered (timeoutFor c.config action triggerUnlock) c.session.keys peer action
        request.envelope.nonce body) →
      ∃ e signals link closed,
        roundTrip action fields triggerUnlock c =
          .error e { sent.heard signals link with closed }) := by
  rcases hd : sent.deadline? (timeoutFor c.config action triggerUnlock) with _ | deadline
  · have hr := roundTrip_of_no_deadline ho hw hd
    refine ⟨fun body => ⟨fun ⟨c', h⟩ => ?_, fun ⟨d, _, _, _, h, _⟩ => ?_⟩, fun _ => ?_⟩
    · rw [hr] at h; cases h
    · rw [hd] at h; cases h
    · exact ⟨_, [], sent.link, true, by rw [hr, heard_nil]⟩
  · obtain ⟨signals, received, link, hb⟩ := Link.exists_brings deadline sent.link
    have hiff (body : Json.Members) :
        (∃ c', roundTrip action fields triggerUnlock c = .ok body c') ↔
          sent.IsAnswered (timeoutFor c.config action triggerUnlock) c.session.keys peer action
            request.envelope.nonce body := by
      refine (exists_roundTrip_eq_ok_iff ho hs hw hd hb).trans ⟨?_, ?_⟩
      · rintro ⟨text, rfl, ha⟩
        exact ⟨deadline, signals, text, link, hd, hb, ha⟩
      · -- the link brings one thing before the deadline
        rintro ⟨deadline', signals', text, link', hd', hb', ha⟩
        cases hd.symm.trans hd'
        obtain ⟨-, rfl, -⟩ := hb.unique hb'
        exact ⟨text, rfl, ha⟩
    refine ⟨hiff, fun hno => ?_⟩
    rcases hr : roundTrip action fields triggerUnlock c with ⟨body, c'⟩ | ⟨e, d⟩
    · exact absurd ((hiff body).1 ⟨c', hr⟩) (hno body)
    · obtain ⟨closed, rfl⟩ := roundTrip_eq_error_of_brings ho hw hd hb hr
      exact ⟨e, signals, link, closed, rfl⟩

/-- A request whose proxy is prompted with a signal and then a box that confirms it is answered, and its
reply accepted; one whose proxy is silent is not. -/
theorem roundTrip_accepts_prompted :
    ∃ (c : Client MemoryStore) (peer : PublicKey) (last : Json.Members),
      let body : Json.Members := [("hash", .string "database"), ("success", .string "true")]
      let prompted := (prompt [.databaseLocked] last).apply c
      (∃ request sent deadline text link d,
        submit .getDatabaseHash [] false prompted = .ok request sent ∧
        sent.deadline? (timeoutFor c.config .getDatabaseHash false) = some deadline ∧
        sent.link.Brings deadline [.databaseLocked] (.message text) link ∧
        Answers c.session.keys peer .getDatabaseHash request.envelope.nonce text body ∧
        roundTrip .getDatabaseHash [] false prompted = .ok body d) ∧
      ∃ request sent e signals link closed,
        submit .getDatabaseHash [] false (silence.apply c) = .ok request sent ∧
        (∀ body, ¬ sent.IsAnswered (timeoutFor c.config .getDatabaseHash false) c.session.keys peer
          .getDatabaseHash request.envelope.nonce body) ∧
        roundTrip .getDatabaseHash [] false (silence.apply c) =
          .error e { sent.heard signals link with closed } := by
  obtain ⟨-, peer, c, -, hidle, -⟩ := exists_introduced (⟨[], {}⟩ : Registry MemoryStore)
  obtain ⟨version, hs⟩ := Session.requirePeer_eq_ok hidle.requirePeer_eq
  have hbody : Table.Ordered [("hash", Json.string "database"), ("success", .string "true")] :=
    Table.ordered_of_names (show ["hash", "success"].Pairwise (· < ·) by decide)
  obtain ⟨last, request, text, d, hr, -, hopens, -⟩ := exists_opens_prompt hidle (by decide)
    (show Outbound.sendable .getDatabaseHash = true from rfl) AreTexts.nil.cons.cons hbody [] false
    [.databaseLocked]
  refine ⟨c, peer, last, ?_, ?_⟩
  · have hanswers := (answers_iff hr.reply_eq).2 ⟨hopens, .of_unnamed rfl rfl rfl _ _⟩
    obtain ⟨-, sent, deadline, link, hw, hd, hb, -⟩ := hr
    have haccepts := roundTrip_accepts (c := (prompt [.databaseLocked] last).apply c)
      hidle.closed_eq hs hw
    obtain ⟨d, hround⟩ := (haccepts.1 _).2 ⟨deadline, _, text, link, hd, hb, hanswers⟩
    exact ⟨request, sent, deadline, text, link, d, hw, hd, hb, hanswers, hround⟩
  · have hroom : c.session.nonces.position + 2 ≤ Nonce.count := by
      rw [hidle.position_eq]
      decide
    obtain ⟨request, sent, hw⟩ : ∃ request sent,
        submit .getDatabaseHash [] false (silence.apply c) = .ok request sent :=
      exists_submit_eq_ok (c := silence.apply c) hs hroom rfl rfl
    obtain ⟨wait, d, hround, -⟩ := exists_roundTrip_silent hidle (by decide)
      (show Outbound.sendable .getDatabaseHash = true from rfl) [] false
    obtain ⟨hiff, hfails⟩ := roundTrip_accepts (c := silence.apply c) hidle.closed_eq hs hw
    have hunanswered (body : Json.Members) :
        ¬ sent.IsAnswered (timeoutFor c.config .getDatabaseHash false) c.session.keys peer
          .getDatabaseHash request.envelope.nonce body := by
      intro hanswered
      obtain ⟨d', hok⟩ := (hiff body).2 hanswered
      cases hround.symm.trans hok
    obtain ⟨e, signals, link, closed, herror⟩ := hfails hunanswered
    exact ⟨request, sent, e, signals, link, closed, hw, hunanswered, herror⟩

end Client

end VaultLink
