import VaultLink.Client.Exchange
import VaultLink.Proofs.Client.Sequencing
import VaultLink.Proofs.Wire.Delivery

/-!
# Waiting for a reply

A client that waits for a reply takes the signals that its link brings before the deadline, and what
the link brings then decides the wait (`awaitReply_of_deadline`). There is nothing to wait for if the
clock cannot show the deadline (`awaitReply_of_no_deadline`).
-/

namespace VaultLink.Client

open Link (Received)

variable {σ : Type}

/-- The deadline of a wait that starts now, if the clock can show it. -/
def deadline? (wait : Duration) (c : Client σ) : Option Instant :=
  if c.link.clock + wait < Instant.beyond then some (c.link.clock + wait) else none

/-- The client after it has taken signals, on the link that they leave. -/
def heard (signals : List Signal) (link : Link) (c : Client σ) : Client σ :=
  { c with
    link
    databaseHash := if signals.isEmpty then c.databaseHash else none
    association := if signals.isEmpty then c.association else .unknown
    journal := c.journal ++ signals.map .signal }

theorem heard_nil (link : Link) (c : Client σ) : c.heard [] link = { c with link } := by
  simp only [heard, List.isEmpty_nil, if_true, List.map_nil, List.append_nil]

/-- The first signal is taken like every other. -/
theorem heard_cons (s : Signal) (signals : List Signal) (next link : Link) (c : Client σ) :
    ((c.heard [s] next).heard signals link) = c.heard (s :: signals) link := by
  simp [heard]

/-- What a wait for the reply to an action comes to. -/
def conclude (action : Action) (wait : Duration) : Received → Except Error Inbound
  | .failed e => .error e
  | .late | .never => .error (.timeout (.noReply action wait))
  | .message text =>
    match Inbound.decode text with
    | .error e => .error e
    | .ok inbound =>
      if inbound.action = action then .ok inbound
      else .error (.protocol (.otherAction action inbound.action))

theorem conclude_eq_ok_iff {action : Action} {wait : Duration} {received : Received}
    {inbound : Inbound} :
    conclude action wait received = .ok inbound ↔
      ∃ text, received = .message text ∧ Inbound.decode text = .ok inbound ∧
        inbound.action = action := by
  cases received with
  | message text =>
    simp only [conclude, Received.message.injEq, exists_eq_left']
    rcases Inbound.decode text with e | inbound'
    · simp
    · simp only
      split
      · rename_i ha
        simp only [Except.ok.injEq, iff_self_and]
        rintro rfl
        exact ha
      · rename_i ha
        simp only [reduceCtorEq, Except.ok.injEq, false_iff, not_and]
        rintro rfl
        exact ha
  | _ => simp [conclude]

/-- One round of a wait. -/
theorem awaitFrom_succ {action : Action} {wait : Duration} {deadline : Instant} {fuel : Nat}
    {c : Client σ} {link : Link} {received : Received}
    (h : c.link.receive (some deadline) = (received, link)) :
    awaitFrom action wait deadline (fuel + 1) c =
      match received.signal? with
      | some s => awaitFrom action wait deadline fuel (c.heard [s] link)
      | none => ofExcept (conclude action wait received) { c with link } := by
  simp only [awaitFrom, bind_apply, get_apply, modify_apply, h]
  cases received with
  | failed | late | never => rfl
  | message text =>
    simp only [Received.signal?, conclude]
    rcases Inbound.decode text with e | inbound
    · rfl
    · cases inbound with
      | signal s => rfl
      | keyExchange | encrypted | failure =>
        simp only [bind_apply, ofExcept_ok]
        split <;> rfl

/-- A wait is over with what comes after the signals. -/
theorem awaitFrom_of_brings {deadline : Instant} {link link' : Link} {signals : List Signal}
    {received : Received} (h : link.Brings deadline signals received link') {action : Action}
    {wait : Duration} {fuel : Nat} {c : Client σ} (hc : c.link = link) (hf : link.volume < fuel) :
    awaitFrom action wait deadline fuel c =
      ofExcept (conclude action wait received) (c.heard signals link') := by
  induction h generalizing fuel c with
  | last hr hs =>
    subst hc
    obtain ⟨fuel, rfl⟩ := Nat.exists_eq_succ_of_ne_zero (Nat.ne_zero_of_lt hf)
    rw [awaitFrom_succ hr, hs, heard_nil]
  | signal hr hs hb ih =>
    subst hc
    -- The signal took bytes off the link, so what is left of the fuel is enough.
    have hle := Link.receive_volume hr
    rw [Received.messages_of_signal? hs] at hle
    obtain ⟨fuel, rfl⟩ := Nat.exists_eq_succ_of_ne_zero (Nat.ne_zero_of_lt hf)
    rw [awaitFrom_succ hr, hs]
    refine (ih rfl (by omega)).trans ?_
    rw [heard_cons]

/-- A wait for a reply takes the signals that come before the deadline, and what comes then decides
it. -/
theorem awaitReply_of_deadline {action : Action} {wait : Duration} {deadline : Instant}
    {signals : List Signal} {received : Received} {link' : Link} {c : Client σ}
    (hd : c.deadline? wait = some deadline) (hb : c.link.Brings deadline signals received link') :
    awaitReply action wait c = ofExcept (conclude action wait received) (c.heard signals link') := by
  unfold deadline? at hd
  split at hd
  · rename_i hlt
    cases hd
    simp only [awaitReply, bind_apply, get_apply, if_neg (Nat.not_le.2 hlt)]
    exact awaitFrom_of_brings hb rfl (Nat.lt_succ_self _)
  · cases hd

theorem awaitReply_of_no_deadline {action : Action} {wait : Duration} {c : Client σ}
    (hd : c.deadline? wait = none) : awaitReply action wait c = .error .deadlineOverflow c := by
  unfold deadline? at hd
  split at hd
  · cases hd
  · rename_i hlt
    simp only [awaitReply, bind_apply, get_apply, if_pos (Nat.not_lt.1 hlt)]
    rfl

/-- One round of listening. -/
theorem nextEventFrom_succ {fuel : Nat} {c : Client σ} {link : Link} {received : Received}
    (h : c.link.receive none = (received, link)) :
    nextEventFrom (fuel + 1) c =
      match received with
      | .failed e => .error e { c with link, closed := breaksStream e || c.closed }
      | .late | .never => .ok none { c with link }
      | .message text =>
        match Inbound.decode text with
        | .error e => .error e { c with link }
        | .ok (.signal s) => .ok (some s) (c.heard [s] link)
        | .ok _ => nextEventFrom fuel { c with link } := by
  simp only [nextEventFrom, bind_apply, get_apply, modify_apply, h]
  cases received with
  | failed e => exact closing_of_error (throw_apply e _)
  | late | never => rfl
  | message text =>
    simp only
    rcases Inbound.decode text with e | inbound
    · rfl
    · cases inbound <;> rfl

/-- A wait for a reply hears signals and ends with a message about the action or with none. -/
theorem awaitReply_cases (action : Action) (wait : Duration) (c : Client σ) :
    ∃ result signals link, awaitReply action wait c = ofExcept result (c.heard signals link) ∧
      link.written = c.link.written ∧ ∀ inbound, result = .ok inbound → inbound.action = action := by
  rcases hd : c.deadline? wait with _ | deadline
  · refine ⟨.error .deadlineOverflow, [], c.link, ?_, rfl, fun _ h => (by cases h)⟩
    rw [awaitReply_of_no_deadline hd, heard_nil]
    rfl
  · obtain ⟨signals, received, link, hb⟩ := Link.exists_brings deadline c.link
    refine ⟨_, signals, link, awaitReply_of_deadline hd hb, hb.written_eq, fun inbound h => ?_⟩
    obtain ⟨-, -, -, ha⟩ := conclude_eq_ok_iff.1 h
    exact ha

end VaultLink.Client
