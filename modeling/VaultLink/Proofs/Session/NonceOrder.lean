import VaultLink.Proofs.Session.Opening
import VaultLink.Proofs.Session.Run

/-!
# No nonce twice

However a session is driven, the nonces that it takes into use rise strictly: a message's own nonce,
the one after it for the reply, then those of the next message. A call moves the sequencer's position
by two or wastes nonces (`perform_cases`), so the position is above everything in use; once a call
fails for want of nonces it is at the end, where no message can be made.
-/

namespace VaultLink.Session

/-- What the answers to a row of calls have to show: nonces in strictly rising order, each reserved
nonce right after its request's, and no message after a failure for want of nonces. -/
structure Orderly (answers : List Answer) : Prop where
  rising : (answers.flatMap Answer.nonces).Pairwise fun a b => a.toNatLE < b.toNatLE
  distinct : (answers.flatMap Answer.nonces).Nodup
  reserved_next : ∀ message reserved, .envelope message reserved ∈ answers →
    ∃ reply, reserved = some reply ∧ message.nonce.increment = some reply
  exhausted_for_good : answers.Pairwise fun a b =>
    a = .failed (.crypto .nonceExhausted) → ¬ b.IsEnvelope

/-- A call makes a message and reserves a nonce for its reply, or makes none and wastes nonces at
most. -/
theorem perform_cases (call : Call) (s : Session) :
    (∃ message reply, (call.perform s).1 = .envelope message (some reply) ∧
      s.Reserves message.nonce reply (call.perform s).2) ∨
    (¬ (call.perform s).1.IsEnvelope ∧ s.nonces.position ≤ (call.perform s).2.nonces.position ∧
      ((call.perform s).1 = .failed (.crypto .nonceExhausted) →
        (call.perform s).2.nonces.position = Nonce.count)) := by
  cases call with
  | begin =>
    simp only [Call.perform]
    rcases h : s.begin with ⟨e | message, t⟩
    · have w := begin_eq_error h
      exact .inr ⟨id, w.position_le, fun he => w.exhausted (Answer.failed.inj he)⟩
    · obtain ⟨-, reply, nonces, rfl, hr⟩ := begin_eq_ok h
      exact .inl ⟨message, reply, rfl, hr⟩
  | complete reply =>
    simp only [Call.perform]
    rcases h : s.complete reply with ⟨e | ⟨⟩, t⟩ <;> obtain ⟨hn, he⟩ := complete_nonces h
    · refine .inr ⟨id, Nat.le_of_eq (by rw [hn]), fun hf => absurd ?_ he⟩
      rw [Answer.failed.inj hf]
    · exact .inr ⟨id, Nat.le_of_eq (by rw [hn]), fun hf => by cases hf⟩
  | reject =>
    refine .inr ⟨id, Nat.le_of_eq ?_, fun hf => by cases hf⟩
    rw [Call.perform, reject_nonces]
  | sealRequest action fields triggerUnlock =>
    simp only [Call.perform]
    rcases h : s.sealRequest action fields triggerUnlock with ⟨e | request, t⟩
    · have w := (sealRequest_eq_error h).1
      exact .inr ⟨id, w.position_le, fun he => w.exhausted (Answer.failed.inj he)⟩
    · exact .inl ⟨_, _, rfl, (sealRequest_eq_ok h).1⟩
  | openReply reply expected =>
    simp only [Call.perform]
    rcases h : s.openReply reply expected with e | members
    · refine .inr ⟨id, Nat.le_refl _, fun hf => absurd ?_
        (openReply_ne_crypto s reply expected .nonceExhausted)⟩
      rw [h, Answer.failed.inj hf]
    · exact .inr ⟨id, Nat.le_refl _, fun hf => by cases hf⟩

/-- A message reserves the nonce after its own. -/
theorem perform_reserved {call : Call} {s : Session} {message : Outbound} {reserved : Option Nonce}
    (h : (call.perform s).1 = .envelope message reserved) :
    ∃ reply, reserved = some reply ∧ s.Reserves message.nonce reply (call.perform s).2 := by
  obtain ⟨message', reply, ha, hr⟩ | ⟨he, -⟩ := perform_cases call s
  · rw [ha] at h
    cases h
    exact ⟨reply, rfl, hr⟩
  · rw [h] at he
    exact absurd trivial he

/-- The position never moves back. -/
theorem position_le_perform (call : Call) (s : Session) :
    s.nonces.position ≤ (call.perform s).2.nonces.position := by
  obtain ⟨_, _, -, hr⟩ | ⟨-, hp, -⟩ := perform_cases call s
  · rw [hr.position_eq]; omega
  · exact hp

/-- The nonces that a call takes into use lie between the positions before and after it, in order. -/
theorem perform_nonces (call : Call) (s : Session) :
    (call.perform s).1.nonces.Pairwise (fun a b => a.toNatLE < b.toNatLE) ∧
      ∀ n ∈ (call.perform s).1.nonces,
        s.nonces.position ≤ n.toNatLE ∧ n.toNatLE < (call.perform s).2.nonces.position := by
  obtain ⟨message, reply, ha, hr⟩ | ⟨he, -⟩ := perform_cases call s
  · have h₁ := hr.request_eq
    have h₂ := hr.reply_toNatLE
    rw [ha, hr.position_eq]
    simp only [Answer.nonces, Option.toList, List.pairwise_cons, List.mem_cons, List.not_mem_nil]
    refine ⟨⟨fun n hn => ?_, ?_⟩, fun n hn => ?_⟩
    · rcases hn with rfl | hn
      · omega
      · exact hn.elim
    · exact ⟨fun _ hn => hn.elim, .nil⟩
    · rcases hn with rfl | rfl | hn
      · omega
      · omega
      · exact hn.elim
  · cases hc : (call.perform s).1 with
    | envelope => rw [hc] at he; exact absurd trivial he
    | _ => exact ⟨.nil, fun n hn => by cases hn⟩

theorem position_le_of_mem_answers {calls : List Call} {s : Session} {n : Nonce}
    (h : n ∈ (answers calls s).flatMap Answer.nonces) : s.nonces.position ≤ n.toNatLE := by
  induction calls generalizing s with
  | nil => cases h
  | cons call calls ih =>
    rw [answers, List.flatMap_cons, List.mem_append] at h
    rcases h with h | h
    · exact ((perform_nonces call s).2 n h).1
    · exact Nat.le_trans (position_le_perform call s) (ih h)

theorem rising_answers (calls : List Call) (s : Session) :
    ((answers calls s).flatMap Answer.nonces).Pairwise fun a b => a.toNatLE < b.toNatLE := by
  induction calls generalizing s with
  | nil => exact .nil
  | cons call calls ih =>
    rw [answers, List.flatMap_cons, List.pairwise_append]
    -- What the later calls take is at or above the position that this call leaves.
    refine ⟨(perform_nonces call s).1, ih _, fun a ha b hb => ?_⟩
    exact Nat.lt_of_lt_of_le ((perform_nonces call s).2 a ha).2 (position_le_of_mem_answers hb)

/-- At the end of the nonces no call makes a message any more. -/
theorem not_isEnvelope_of_position_eq {calls : List Call} {s : Session}
    (h : s.nonces.position = Nonce.count) : ∀ a ∈ answers calls s, ¬ a.IsEnvelope := by
  induction calls generalizing s with
  | nil => exact fun a ha => by cases ha
  | cons call calls ih =>
    have hle := (call.perform s).2.nonces.position_le
    obtain ⟨_, _, -, hr⟩ | ⟨he, hp, -⟩ := perform_cases call s
    · have := hr.position_eq
      omega
    · intro a ha
      rcases List.mem_cons.1 ha with rfl | ha
      · exact he
      · exact ih (by omega) a ha

theorem exhausted_answers (calls : List Call) (s : Session) :
    (answers calls s).Pairwise fun a b =>
      a = .failed (.crypto .nonceExhausted) → ¬ b.IsEnvelope := by
  induction calls generalizing s with
  | nil => exact .nil
  | cons call calls ih =>
    refine List.pairwise_cons.2 ⟨fun b hb ha => ?_, ih _⟩
    obtain ⟨_, _, he, -⟩ | ⟨-, -, hp⟩ := perform_cases call s
    · rw [he] at ha
      cases ha
    · exact not_isEnvelope_of_position_eq (hp ha) b hb

theorem reserved_answers {calls : List Call} {s : Session} {message : Outbound}
    {reserved : Option Nonce} (h : .envelope message reserved ∈ answers calls s) :
    ∃ reply, reserved = some reply ∧ message.nonce.increment = some reply := by
  induction calls generalizing s with
  | nil => cases h
  | cons call calls ih =>
    rcases List.mem_cons.1 h with h | h
    · obtain ⟨reply, rfl, hr⟩ := perform_reserved h.symm
      exact ⟨reply, rfl, hr.reply_eq⟩
    · exact ih h

/-- The answers of every session, from whatever entropy, to every row of calls are orderly. -/
theorem orderly_answers (clientId : Option String) (entropy : Entropy) (calls : List Call) :
    Orderly (answers calls (start clientId entropy)) where
  rising := rising_answers calls _
  distinct := (rising_answers calls _).imp fun h e => by rw [e] at h; exact Nat.lt_irrefl _ h
  reserved_next _ _ h := reserved_answers h
  exhausted_for_good := exhausted_answers calls _

end VaultLink.Session
