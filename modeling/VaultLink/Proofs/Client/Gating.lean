import Mathlib.Data.List.Induction
import VaultLink.Proofs.Client.Freshness

/-!
# Privileged requests are gated

A privileged request is written only after an exchange on the same connection in which the
association was accepted, and from then on nothing put the database in doubt: this holds of every such
message in the journal of a run (`gated_run`). It follows from the course of one episode by induction
on the row, for the voucher of a validated association (`exists_voucher`) and for the episode of a
message (`exists_episode`).
-/

namespace VaultLink.Client

variable {σ : Type} [AssociationStore σ]

/-- Every privileged message in the journal of a run was written after an episode `v` that ended with
the reply by which the proxy accepted the association; the episodes since then were calm. -/
def Gated (moves : List (Move σ)) (start : Client σ) : Prop :=
  ∀ past message future, (run moves start).journal = past ++ .sent message :: future →
    message.action.requiresAssociation = true →
    ∃ earlier v later rest before reply body,
      Retraces moves (earlier ++ v :: later ++ rest) start ∧
      (play (earlier ++ v :: later) start).journal = past ∧
      v.Vouches (play earlier start) ∧
      (play (earlier ++ [v]) start).journal = before ++ [.accepted reply body] ∧
      (reply.action = .associate ∨ reply.action = .testAssociate) ∧
      Throughout Episode.Calm later (play (earlier ++ [v]) start)

theorem sent_not_mem_passage {m : Outbound} {signals : List Signal}
    {answer : Option (BoxedReply × Json.Members)} : .sent m ∉ passage none signals answer := by
  cases answer <;> simp [passage, answerNotes]

/-- The message of an exchange stands first in its notes. -/
theorem passage_eq_append_sent {message : Option Outbound} {signals : List Signal}
    {answer : Option (BoxedReply × Json.Members)} {before after : List Note} {m : Outbound}
    (h : passage message signals answer = before ++ .sent m :: after) :
    before = [] ∧ message = some m := by
  cases message with
  | none =>
    have hm : .sent m ∈ passage none signals answer := by rw [h]; simp
    exact absurd hm sent_not_mem_passage
  | some m' =>
    have hcons : passage (some m') signals answer = .sent m' :: passage none signals answer := rfl
    rw [hcons] at h
    cases before with
    | nil => cases h; exact ⟨rfl, rfl⟩
    | cons note before =>
      have hm : .sent m ∈ passage none signals answer := by rw [(List.cons.inj h).2]; simp
      exact absurd hm sent_not_mem_passage

theorem Episode.journal_apply (e : Episode σ) (c : Client σ) :
    (e.apply c).journal = c.journal ++ e.notes c := by
  obtain ⟨action, message, signals, answer, h⟩ := e.exists_course c
  rw [h.journal_eq, e.notes_eq h.journal_eq]

variable {c : Client σ} {row : List (Episode σ)}

theorem journal_prefix_play (row : List (Episode σ)) (c : Client σ) :
    c.journal <+: (play row c).journal := by
  induction row generalizing c with
  | nil => exact List.prefix_rfl
  | cons e row ih => exact (e.journal_apply c ▸ List.prefix_append _ _).trans (ih (e.apply c))

/-- Every note in the journal of a row was added by one of its episodes. -/
theorem exists_episode {past future : List Note} {note : Note} (hle : c.journal.length ≤ past.length)
    (h : (play row c).journal = past ++ note :: future) :
    ∃ before e after heard more, row = before ++ e :: after ∧
      e.notes (play before c) = heard ++ note :: more ∧ past = (play before c).journal ++ heard := by
  induction row generalizing c with
  | nil =>
    have hlen := congrArg List.length h
    simp only [play, List.foldl_nil, List.length_append, List.length_cons] at hlen
    omega
  | cons e row ih =>
    by_cases hlater : (e.apply c).journal.length ≤ past.length
    · obtain ⟨before, e', after, heard, more, rfl, hn, hp⟩ := ih hlater h
      exact ⟨e :: before, e', after, heard, more, rfl, hn, hp⟩
    · -- the note is one of those that `e` adds: `past` ends among them
      have hall : past ++ [note] ++ future = (play (e :: row) c).journal := by rw [h]; simp
      have hpast : past ++ [note] <+: (e.apply c).journal :=
        List.prefix_of_prefix_length_le ⟨future, hall⟩ (journal_prefix_play row (e.apply c))
          (by simp only [List.length_append, List.length_singleton]; omega)
      have hold : c.journal <+: past :=
        List.prefix_of_prefix_length_le (journal_prefix_play (e :: row) c)
          ⟨note :: future, h.symm⟩ hle
      obtain ⟨heard, rfl⟩ := hold
      obtain ⟨more, hmore⟩ := hpast
      have hnotes : c.journal ++ (heard ++ note :: more) = c.journal ++ e.notes c := by
        rw [← e.journal_apply c, ← hmore]
        simp
      exact ⟨[], e, row, heard, more, rfl, (List.append_cancel_left hnotes).symm, rfl⟩

/-- An association that is validated was accepted in an episode before, and what came since was
calm. -/
theorem exists_voucher (hf : Throughout Episode.Fits row c) (hc : c.association ≠ .validated)
    (hv : (play row c).association = .validated) :
    ∃ earlier v later, row = earlier ++ v :: later ∧ v.Vouches (play earlier c) ∧
      Throughout Episode.Calm later (play (earlier ++ [v]) c) := by
  induction row using List.reverseRecOn with
  | nil => exact absurd hv hc
  | append_singleton row e ih =>
    obtain ⟨hrow, he, -⟩ := throughout_append.1 hf
    rw [play_append] at hv
    obtain ⟨action, message, signals, answer, hcourse⟩ := e.exists_course (play row c)
    rcases hcourse.validated he hv with hvouch | ⟨hval, hcalm⟩
    · exact ⟨row, e, [], rfl, hvouch, trivial⟩
    · obtain ⟨earlier, v, later, rfl, hvouch, hlater⟩ := ih hrow hval
      refine ⟨earlier, v, later ++ [e], by simp, hvouch, throughout_append.2 ⟨hlater, ?_, trivial⟩⟩
      rw [← play_append, List.append_assoc, List.singleton_append]
      exact hcalm

theorem gated_of_start (moves : List (Move σ)) (hj : c.journal = [])
    (hc : c.association ≠ .validated) : Gated moves c := by
  intro past message future h hp
  obtain ⟨row, hf, hrow⟩ := exists_retraces moves c
  rw [← hrow.play_eq] at h
  obtain ⟨before, e, after, heard, more, rfl, hn, rfl⟩ :=
    exists_episode (by rw [hj]; exact Nat.zero_le _) h
  obtain ⟨hbefore, he, -⟩ := throughout_append.1 hf
  obtain ⟨action, message', signals, answer, hcourse⟩ := e.exists_course (play before c)
  rw [Episode.notes_eq hcourse.journal_eq] at hn
  obtain ⟨rfl, rfl⟩ := passage_eq_append_sent hn
  obtain ⟨earlier, v, later, rfl, hvouch, hlater⟩ :=
    exists_voucher hbefore hc (hcourse.privileged (hcourse.message_action message rfl ▸ hp) he)
  obtain ⟨action', message', signals, answer, hvcourse⟩ := v.exists_course (play earlier c)
  obtain ⟨reply, body, rfl, haction⟩ := hvcourse.vouched hvouch
  rw [← hvcourse.reply_action _ rfl] at haction
  refine ⟨earlier, v, later, e :: after,
    (play earlier c).journal ++ passage message' signals none, reply, body, hrow, ?_, hvouch, ?_,
    haction, hlater⟩
  · rw [List.append_nil]
  · rw [play_append]
    exact hvcourse.journal_eq.trans (by simp [passage, answerNotes])

/-- Whatever is asked of a client and whatever the other end of the link sends, a privileged request
is written only with an association that was accepted on this connection, with the database not in
doubt since. The messages of the journal are those that were written. -/
theorem gated_run (clock : Instant) (config : Config) (registry : Registry σ) (entropy : Entropy)
    (moves : List (Move σ)) :
    (run moves (new clock config registry entropy)).link.written.map .ok =
      ((run moves (new clock config registry entropy)).journal.filterMap Note.sent?).map
        Outbound.encode ∧
    Gated moves (new clock config registry entropy) := by
  refine ⟨?_, gated_of_start moves rfl fun h => (by cases h)⟩
  obtain ⟨notes, h⟩ := exists_tells_run moves (new clock config registry entropy)
  rw [h.written_eq, h.journal_eq]
  rfl

end VaultLink.Client
