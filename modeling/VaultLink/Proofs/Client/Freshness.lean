import VaultLink.Proofs.Client.Course
import VaultLink.Proofs.Client.History

/-!
# No box is accepted twice

Whatever operations are called and whatever the other end of the link sends, what happens on a
connection makes a lawful history: every exchange adds a lawful piece to the journal
(`Conveys.tells`), and so does every run (`exists_tells_run`). A box is therefore accepted only by the
call whose request it answers, at most once, and never if it is a message of the client itself.
-/

namespace VaultLink.Client

variable {σ α : Type} {c c' d : Client σ} {notes more : List Note}

/-- What a stretch of a run, from `c` to `c'`, adds to the journal: a lawful history, with every
message that was written in it. -/
structure Tells (c : Client σ) (notes : List Note) (c' : Client σ) : Prop where
  journal_eq : c'.journal = c.journal ++ notes
  lawful : Lawful c.session.nonces.position none notes c'.session.nonces.position
  written_eq : c'.link.written.map .ok =
    c.link.written.map .ok ++ (notes.filterMap Note.sent?).map Outbound.encode

theorem filterMap_sent?_passage (message : Option Outbound) (signals : List Signal)
    (answer : Option (BoxedReply × Json.Members)) :
    (passage message signals answer).filterMap Note.sent? = message.toList := by
  cases message <;> cases answer <;> simp [passage, answerNotes, Note.sent?]

theorem Tells.refl (c : Client σ) : Tells c [] c :=
  ⟨(List.append_nil _).symm, .idle (Nat.le_refl _), (List.append_nil _).symm⟩

theorem Tells.trans (h : Tells c notes c') (h' : Tells c' more d) : Tells c (notes ++ more) d where
  journal_eq := by rw [h'.journal_eq, h.journal_eq, List.append_assoc]
  lawful := h.lawful.append h'.lawful
  written_eq := by
    rw [h'.written_eq, h.written_eq, List.filterMap_append, List.map_append, List.append_assoc]

/-- An exchange tells a lawful history. -/
theorem Conveys.tells {action : Action} {message : Option Outbound} {signals : List Signal}
    {answer : Option (BoxedReply × Json.Members)} (h : Conveys action c message signals answer c') :
    Tells c (passage message signals answer) c' where
  journal_eq := h.journal_eq
  lawful := by
    cases message with
    | none =>
      cases answer with
      | none => exact .signals signals (.idle h.position_le)
      | some a =>
        obtain ⟨m, hm, -⟩ := h.reply_nonce a rfl
        cases hm
    | some m =>
      obtain ⟨hle, hnext⟩ := h.message_nonce m rfl
      refine .sent hle (.signals signals ?_)
      cases answer with
      | none => exact .idle hnext
      | some a =>
        obtain ⟨_, ⟨⟩, hn⟩ := h.reply_nonce a rfl
        exact .accepted a.2 hn (.idle hnext)
  written_eq := by rw [h.written_eq, filterMap_sent?_passage]

/-- A round trip that returns members has accepted them from the reply to its own message. -/
theorem journal_of_roundTrip_eq_ok {action : Action} {fields body : Json.Members}
    {triggerUnlock : Bool} (h : roundTrip action fields triggerUnlock c = .ok body c') :
    ∃ (message : Outbound) (reply : BoxedReply) (signals : List Signal),
      message.nonce.increment = some reply.nonce ∧
        c'.journal = c.journal ++ .sent message :: (signals.map .signal ++ [.accepted reply body]) := by
  obtain ⟨message, signals, ht⟩ := exists_trip_roundTrip action fields triggerUnlock c
  rw [h] at ht
  obtain ⟨reply, hp⟩ := ht
  obtain ⟨m, rfl, hn⟩ := hp.reply_nonce _ rfl
  exact ⟨m, reply, signals, hn, hp.journal_eq⟩

variable [AssociationStore σ]

theorem exists_tells_play (row : List (Episode σ)) (c : Client σ) :
    ∃ notes, Tells c notes (play row c) := by
  induction row generalizing c with
  | nil => exact ⟨[], .refl c⟩
  | cons e row ih =>
    obtain ⟨action, message, signals, answer, h⟩ := e.exists_course c
    obtain ⟨more, hm⟩ := ih (e.apply c)
    exact ⟨_, h.toConveys.tells.trans hm⟩

/-- Every run adds a lawful history to the journal. -/
theorem exists_tells_run (moves : List (Move σ)) (c : Client σ) :
    ∃ notes, Tells c notes (run moves c) := by
  obtain ⟨row, -, hrow⟩ := exists_retraces moves c
  rw [← hrow.play_eq]
  exact exists_tells_play row c

/-- What the journal of a client has to show. -/
structure Unrepeated (c : Client σ) : Prop where
  /-- The journal lists the messages that were written, all of them and in order. -/
  sent_eq : (c.journal.filterMap Note.sent?).map Outbound.encode = c.link.written.map .ok
  /-- A reply is accepted only under the nonce after that of the last message. -/
  answers_last : ∀ before after reply body, c.journal = before ++ .accepted reply body :: after →
    ∃ message, (before.filterMap Note.sent?).getLast? = some message ∧
      message.nonce.increment = some reply.nonce
  /-- No message, earlier or later, and no other reply that was accepted has the nonce of a reply that
  was accepted. -/
  nonce_ne : ∀ before after reply body, c.journal = before ++ .accepted reply body :: after →
    ∀ note ∈ before ++ after, note.nonce? ≠ some reply.nonce
  /-- From here, a round trip that returns members puts its own message into the journal and the reply
  to it, which it accepts. -/
  accepts : ∀ action fields triggerUnlock body c',
    roundTrip action fields triggerUnlock c = .ok body c' →
      ∃ (message : Outbound) (reply : BoxedReply) (signals : List Signal),
        message.nonce.increment = some reply.nonce ∧
          c'.journal = c.journal ++ .sent message :: (signals.map .signal ++ [.accepted reply body])

/-- However a new client is used and whatever comes from the other end, no box is accepted twice, for
another request than the last, or as a message of the client itself. -/
theorem unrepeated_run (clock : Instant) (config : Config) (registry : Registry σ) (entropy : Entropy)
    (moves : List (Move σ)) : Unrepeated (run moves (new clock config registry entropy)) := by
  obtain ⟨notes, ht⟩ := exists_tells_run moves (new clock config registry entropy)
  have hj : (run moves (new clock config registry entropy)).journal = notes := ht.journal_eq
  refine ⟨?_, fun before after reply body h => ?_, fun before after reply body h => ?_,
    fun _ _ _ _ _ h => journal_of_roundTrip_eq_ok h⟩
  · rw [hj]
    exact ht.written_eq.symm
  · obtain ⟨message, hl, hi⟩ := ht.lawful.answers_last (hj.symm.trans h)
    rw [Option.or_none] at hl
    exact ⟨message, hl, hi⟩
  · exact ht.lawful.nonce_ne (hj.symm.trans h)

end VaultLink.Client
