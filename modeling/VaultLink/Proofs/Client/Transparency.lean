import VaultLink.Proofs.Client.Lagging
import VaultLink.Proofs.Client.Retirement
import VaultLink.Proofs.Wire.Timetable

/-!
# Signals do not disturb a request

Two runs of one client that differ in what the link will bring: the same reply before the deadline, with
different signals before it. Both write the same request and return the same, and they leave the same
client but for what the signals are for: each is published once and in order, and any of them makes the
client forget the database (`roundTrip_transparent`).

* `Stirs`: what signals do to a client, and no signals do not.
-/

namespace VaultLink.Client

open Link (Completes schedule signalOf?)

variable {σ : Type} {c d sent sent' : Client σ} {action : Action} {fields : Json.Members}
  {triggerUnlock : Bool} {request request' : SealedRequest} {link : Link} {signals signals' : List Signal}

/-- Which request is written does not depend on the link. -/
theorem submit_congr (hw : submit action fields triggerUnlock c = .ok request sent)
    (hw' : submit action fields triggerUnlock { c with link } = .ok request' sent') :
    request' = request ∧ sent' = { sent with link := sent'.link } := by
  obtain ⟨bytes, -, hsend⟩ := (submit_eq_ok hw').written
  obtain ⟨_, -, h⟩ := submit_relink hw (writeFailure?_of_send_eq_ok hsend)
  cases hw'.symm.trans h
  exact ⟨rfl, rfl⟩

/-- Whether a result breaks the stream. -/
def breaks {α : Type} : Except Error α → Bool
  | .ok _ => false
  | .error e => breaksStream e

theorem closing_of_ofExcept {α : Type} {m : Run σ α} {result : Except Error α}
    (h : m c = ofExcept result d) :
    closing m c = ofExcept result { d with closed := breaks result || d.closed } := by
  cases result with
  | ok => exact closing_of_ok h
  | error => exact closing_of_error h

/-- How a message settles a request depends on the session only, and no signal comes of it. -/
theorem exists_settle_eq (action : Action) (request : SealedRequest) (inbound : Except Error Inbound)
    (session : Session) :
    ∃ result notes, (∀ note ∈ notes, Note.signal? note = none) ∧
      ∀ d : Client σ, d.session = session →
        (ofExcept inbound >>= settle action request) d =
          ofExcept result { d with journal := d.journal ++ notes } := by
  have hfails (e : Error) (h : ∀ d : Client σ, d.session = session →
      (ofExcept inbound >>= settle action request) d = .error e d) :
      ∃ result notes, (∀ note ∈ notes, Note.signal? note = none) ∧
        ∀ d : Client σ, d.session = session →
          (ofExcept inbound >>= settle action request) d =
            ofExcept result { d with journal := d.journal ++ notes } := by
    refine ⟨.error e, [], List.forall_mem_nil _, fun d hd => ?_⟩
    rw [h d hd, List.append_nil]
    rfl
  cases inbound with
  | error e => exact hfails e fun d _ => rfl
  | ok inbound =>
    cases inbound with
    | signal | keyExchange | failure => exact hfails _ fun d _ => rfl
    | encrypted reply =>
      rcases ho : session.openReply reply request.replyNonce with e | opened
      · refine hfails e fun d hd => ?_
        subst hd
        simp only [bind_apply, ofExcept_ok, settle, get_apply, ho, ofExcept_error]
      rcases hk : checkReply action request.replyNonce opened with e | body
      · refine hfails e fun d hd => ?_
        subst hd
        simp only [bind_apply, ofExcept_ok, settle, get_apply, ho, hk, ofExcept_error]
      · refine ⟨.ok body, [.accepted reply body], List.forall_mem_singleton.2 rfl, fun d hd => ?_⟩
        subst hd
        simp only [bind_apply, ofExcept_ok, settle, get_apply, ho, hk]
        rfl

/-- What signals do to a client: each is published, once and in order, and the database is forgotten.
Without any nothing is done. -/
structure Stirs (signals : List Signal) (c d : Client σ) : Prop where
  events_eq : d.events = c.events ++ signals
  databaseHash_eq : d.databaseHash = if signals = [] then c.databaseHash else none
  association_eq : d.association = if signals = [] then c.association else .unknown

theorem stirs_heard (hw : submit action fields triggerUnlock c = .ok request sent)
    {notes : List Note} (hn : ∀ note ∈ notes, Note.signal? note = none) (signals : List Signal)
    (link : Link) (closed : Bool) :
    Stirs signals c { sent.heard signals link with
      journal := (sent.heard signals link).journal ++ notes, closed } := by
  obtain ⟨sentLink, session, rfl⟩ : ∃ link session, sent = { c with
      link, session, journal := c.journal ++ [.sent request.envelope] } :=
    ⟨_, _, (submit_eq_ok hw).client_eq⟩
  have hnotes : notes.filterMap Note.signal? = [] := List.filterMap_eq_nil_iff.2 hn
  have hsignals : (signals.map Note.signal).filterMap Note.signal? = signals := by
    rw [List.filterMap_map]
    exact List.filterMap_some
  have hsent : [Note.sent request.envelope].filterMap Note.signal? = [] := rfl
  constructor
  · simp only [events, heard, List.filterMap_append, hnotes, hsignals, hsent, List.append_nil]
  · simp only [heard, List.isEmpty_iff]
  · simp only [heard, List.isEmpty_iff]

/-- The same reply after other signals: the same request is written, the same is returned, and the client
is left the same but for the link, the journal and what is known of the database. In each run every signal
before the reply is published once and in order, and the database is forgotten just if there was any. -/
theorem roundTrip_transparent (ho : c.closed = false)
    (hw : submit action fields triggerUnlock c = .ok request sent)
    (hw' : submit action fields triggerUnlock { c with link } = .ok request' sent')
    {deadline deadline' : Instant}
    (hd : sent.deadline? (timeoutFor c.config action triggerUnlock) = some deadline)
    (hd' : sent'.deadline? (timeoutFor c.config action triggerUnlock) = some deadline') {text : String}
    (ha : sent.link.Announces deadline signals text)
    (ha' : sent'.link.Announces deadline' signals' text) :
    request' = request ∧ ∃ result d d',
      roundTrip action fields triggerUnlock c = ofExcept result d ∧
      roundTrip action fields triggerUnlock { c with link } = ofExcept result d' ∧
      d' = { d with
        link := d'.link, databaseHash := d'.databaseHash, association := d'.association,
        journal := d'.journal } ∧
      Stirs signals c d ∧ Stirs signals' c d' := by
  obtain ⟨rfl, hsent⟩ := submit_congr hw hw'
  obtain ⟨last, hb⟩ := ha.exists_brings
  obtain ⟨last', hb'⟩ := ha'.exists_brings
  have hr := roundTrip_of_brings ho hw hd hb
  have hr' := roundTrip_of_brings (c := { c with link }) ho hw' hd' hb'
  obtain ⟨result, notes, hnotes, hsettle⟩ := exists_settle_eq action request'
    (conclude action (timeoutFor c.config action triggerUnlock) (.message text)) sent.session
  have hsession : sent'.session = sent.session := by rw [hsent]
  have hstirs := stirs_heard hw' hnotes signals' last'
    (breaks result || (sent'.heard signals' last').closed)
  refine ⟨rfl, result, _, _, hr.trans (closing_of_ofExcept (hsettle (sent.heard signals last) rfl)),
    hr'.trans (closing_of_ofExcept (hsettle (sent'.heard signals' last') hsession)), ?_,
    stirs_heard hw hnotes _ _ _, ⟨hstirs.events_eq, hstirs.databaseHash_eq, hstirs.association_eq⟩⟩
  rw [hsent]
  rfl

/-- The database is locked while a request is under way, and it is not. -/
theorem roundTrip_transparent_locked :
    let lock : String := "\x7b\"action\":\"database-locked\"\x7d"
    let refusal : String := "\x7b\"action\":\"get-databasehash\",\"error\":\"no\",\"errorCode\":\"1\"\x7d"
    let quiet := connected (answering (schedule [(2, Utf8.encode refusal)]))
    let locked := connected (answering (schedule [(1, Utf8.encode lock), (2, Utf8.encode refusal)]))
    ∃ result d d',
      roundTrip .getDatabaseHash [] false quiet = ofExcept result d ∧
      roundTrip .getDatabaseHash [] false locked = ofExcept result d' ∧
      d' = { d with
        link := d'.link, databaseHash := d'.databaseHash, association := d'.association,
        journal := d'.journal } ∧
      Stirs [] quiet d ∧ Stirs [.databaseLocked] quiet d' := by
  intro lock refusal quiet locked
  obtain ⟨request, sent, message, hl, hw⟩ :=
    exists_submit_answering (schedule [(2, Utf8.encode refusal)])
  obtain ⟨request', sent', message', hl', hw'⟩ :=
    exists_submit_answering (schedule [(1, Utf8.encode lock), (2, Utf8.encode refusal)])
  have hwait : Duration.ofSeconds 5 < Instant.beyond := by decide
  have hempty : Link.atHand [] = .wanting [] := rfl
  have hlock : Link.atHand (Utf8.encode lock) = .settled (.message lock) [] := by
    rw [Link.atHand, show Frame.split (Utf8.encode lock) = .message lock [] by decide]
  have hrefusal : Link.atHand (Utf8.encode refusal) = .settled (.message refusal) [] := by
    rw [Link.atHand, show Frame.split (Utf8.encode refusal) = .message refusal [] by decide]
  have hsignal : signalOf? lock = some .databaseLocked := by decide
  have hother : signalOf? refusal = none := by decide
  have hend : Completes 2 (Utf8.encode refusal) [] ([] ++ (2, refusal) :: []) :=
    .frame hrefusal (.rest hempty)
  have hboth : Completes 0 [] [(1, Utf8.encode lock), (2, Utf8.encode refusal)]
      ([(1, lock)] ++ (2, refusal) :: []) :=
    .read hempty (.frame hlock (.read hempty hend))
  have ha : sent.link.Announces (Duration.ofSeconds 5) [] refusal := by
    rw [hl]
    exact .intro (List.append_nil _).symm (.read hempty hend) (List.forall_mem_nil _) rfl hother
      (by decide)
  have ha' : sent'.link.Announces (Duration.ofSeconds 5) [.databaseLocked] refusal := by
    rw [hl']
    exact .intro (List.append_nil _).symm hboth (List.forall_mem_singleton.2 (hsignal ▸ rfl))
      (List.filterMap_cons_some hsignal) hother (by decide)
  exact (roundTrip_transparent (c := quiet) rfl hw hw'
    (deadline?_of_clock (by rw [hl]) hwait) (deadline?_of_clock (by rw [hl']) hwait) ha ha').2

end VaultLink.Client
