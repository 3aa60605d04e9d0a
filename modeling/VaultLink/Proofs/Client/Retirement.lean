import VaultLink.Proofs.Client.RoundTrip
import VaultLink.Proofs.Proxy.Decoding

/-!
# When an unanswered request closes the client

A request is unanswered if what ended the wait for its reply is no message about its action. The
round trip fails then, and the client is closed if the wait ended without a message: late, or because
the stream ended or failed. It stays open if the wait ended with bytes, be they a message or not,
although the reply may still come.
-/

namespace VaultLink

/-- Whether a wait ended with bytes: a message, or something that is none. -/
def Link.Received.IsBytes : Received → Prop
  | message _ | failed (.malformedMessage _) => True
  | _ => False

namespace Client

open Link (Received)

variable {σ : Type} {c sent : Client σ} {action : Action} {fields : Json.Members}
  {triggerUnlock : Bool} {request : SealedRequest}

/-- A wait ended otherwise than with a message about the action. The signals before its end do not
count: no request is about the action of a signal. -/
def Unanswered (action : Action) (received : Received) : Prop :=
  ∀ text inbound, received = .message text → Inbound.decode text = .ok inbound →
    inbound.action ≠ action

/-- Without a message about the action, a wait comes to an error, and it is one of those that close
the client just if no bytes ended the wait. -/
theorem conclude_of_unanswered (wait : Duration) {deadline : Instant} {link link' : Link}
    {signals : List Signal} {received : Received}
    (hb : link.Brings deadline signals received link') (hu : Unanswered action received) :
    ∃ e, conclude action wait received = .error e ∧ (breaksStream e = false ↔ received.IsBytes) := by
  cases received with
  | failed e =>
    obtain ⟨last, hr, -⟩ := hb.exists_receive
    refine ⟨e, rfl, ?_⟩
    cases Link.fails_of_receive hr <;> simp [breaksStream, Received.IsBytes]
  | late => exact ⟨_, rfl, by simp [breaksStream, Received.IsBytes]⟩
  | never => exact ⟨_, rfl, by simp [breaksStream, Received.IsBytes]⟩
  | message text =>
    rcases hd : Inbound.decode text with e | inbound
    · obtain ⟨cause, rfl⟩ := Inbound.decode_eq_error hd
      refine ⟨.malformedMessage cause, ?_, by simp [breaksStream, Received.IsBytes]⟩
      simp only [conclude, hd]
    · have hne : ¬ inbound.action = action := hu text inbound rfl hd
      refine ⟨.protocol (.otherAction action inbound.action), ?_,
        by simp [breaksStream, Received.IsBytes]⟩
      simp only [conclude, hd, if_neg hne]

/-- A round trip whose request was written and is not answered fails. If there is no deadline it
closes the client; else the client stays open exactly if bytes ended the wait. -/
theorem roundTrip_unanswered (ho : c.closed = false)
    (hw : submit action fields triggerUnlock c = .ok request sent) :
    (sent.deadline? (timeoutFor c.config action triggerUnlock) = none →
      ∃ e c', roundTrip action fields triggerUnlock c = .error e c' ∧ c'.closed = true) ∧
    ∀ deadline signals received link,
      sent.deadline? (timeoutFor c.config action triggerUnlock) = some deadline →
      sent.link.Brings deadline signals received link → Unanswered action received →
      ∃ e c', roundTrip action fields triggerUnlock c = .error e c' ∧ c'.link = link ∧
        (c'.closed = false ↔ received.IsBytes) := by
  refine ⟨fun hd => ⟨_, _, roundTrip_of_no_deadline ho hw hd, rfl⟩, ?_⟩
  intro deadline signals received link hd hb hu
  obtain ⟨e, he, hiff⟩ := conclude_of_unanswered (timeoutFor c.config action triggerUnlock) hb hu
  have hclosed : sent.closed = false := by rw [(submit_eq_ok hw).client_eq]; exact ho
  rw [roundTrip_of_brings ho hw hd hb, closing_of_error (bind_of_error (by rw [he]; rfl) _)]
  refine ⟨e, _, rfl, rfl, ?_⟩
  show (breaksStream e || sent.closed) = false ↔ received.IsBytes
  rw [hclosed, Bool.or_false, hiff]

/-- A link on which the first message brings about the given arrivals. -/
def answering (arrivals : List Arrival) : Link := { Link.fresh 0 with answers := [fun _ => arrivals] }

theorem exists_submit_answering (arrivals : List Arrival) :
    ∃ request sent message, sent.link = ⟨[], arrivals, 0, none, [], [message]⟩ ∧
      submit .getDatabaseHash [] false (connected (answering arrivals)) = .ok request sent := by
  obtain ⟨request, sent, hw⟩ :=
    exists_submit_connected (answering arrivals) .getDatabaseHash rfl rfl
  obtain ⟨message, -, hl⟩ := (submit_eq_ok hw).written
  exact ⟨request, sent, message, (congrArg Prod.snd hl).symm, hw⟩

/-- A client that waits for a reply and meets with bytes that are not JSON. -/
theorem exists_submit_garbage :
    ∃ request sent deadline received link,
      submit .getDatabaseHash [] false (connected (answering [.data [0x67]])) = .ok request sent ∧
      sent.deadline? (timeoutFor (connected (answering [.data [0x67]])).config .getDatabaseHash false) =
        some deadline ∧
      sent.link.Brings deadline [] received link ∧ Unanswered .getDatabaseHash received ∧
      received.IsBytes := by
  obtain ⟨request, sent, message, hl, hw⟩ := exists_submit_answering [.data [0x67]]
  have hlt : (0 : Instant) + Duration.ofSeconds 5 < Instant.beyond := by decide
  refine ⟨request, sent, Duration.ofSeconds 5, .failed (.malformedMessage (.unparsable .missingValue)),
    ⟨[], [], 0, none, [], [message]⟩, hw, ?_, ?_, fun _ _ h => (by cases h), trivial⟩
  · rw [deadline?, hl]
    exact (if_pos hlt).trans (congrArg some (Nat.zero_add _))
  · rw [hl]
    exact .last rfl rfl

theorem roundTrip_unanswered_garbage :
    ∃ (e : Error) (c' : Client Unit),
      roundTrip .getDatabaseHash [] false (connected (answering [.data [0x67]])) = .error e c' ∧
        c'.closed = false := by
  obtain ⟨request, sent, deadline, received, link, hw, hd, hb, hu, hbytes⟩ := exists_submit_garbage
  obtain ⟨e, c', hr, -, hiff⟩ := (roundTrip_unanswered rfl hw).2 _ _ _ _ hd hb hu
  exact ⟨e, c', hr, hiff.2 hbytes⟩

/-- Not every request that stays unanswered closes the client: bytes that are not JSON end the wait
and leave it open. -/
theorem not_forall_closed_of_unanswered :
    ¬ ∀ (c sent c' : Client Unit) (action : Action) (fields : Json.Members) (triggerUnlock : Bool)
      (request : SealedRequest) (e : Error) (deadline : Instant) (signals : List Signal)
      (received : Received) (link : Link),
      c.closed = false → submit action fields triggerUnlock c = .ok request sent →
      sent.deadline? (timeoutFor c.config action triggerUnlock) = some deadline →
      sent.link.Brings deadline signals received link → Unanswered action received →
      roundTrip action fields triggerUnlock c = .error e c' → c'.closed = true := by
  intro h
  obtain ⟨request, sent, deadline, received, link, hw, hd, hb, hu, hbytes⟩ := exists_submit_garbage
  obtain ⟨e, he, hiff⟩ := conclude_of_unanswered
    (timeoutFor (connected (answering [.data [0x67]])).config .getDatabaseHash false) hb hu
  have hr := roundTrip_of_brings rfl hw hd hb
  rw [closing_of_error (bind_of_error (by rw [he]; rfl) _), hiff.2 hbytes] at hr
  have hc : sent.closed = false := by rw [(submit_eq_ok hw).client_eq]; rfl
  have ht := h _ sent _ _ _ _ request _ _ _ _ _ rfl hw hd hb hu hr
  exact Bool.false_ne_true (hc.symm.trans ht)

end Client

end VaultLink
