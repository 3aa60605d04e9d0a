import VaultLink.Proxy.Inbound
import VaultLink.Wire.Link

/-!
# What a link brings

Up to a deadline a link brings signals and then something that ends the wait for a reply: another
message, a failure, or the deadline (`Link.Brings`). Every message takes bytes off the link
(`receive_volume`), so every wait ends (`exists_brings`), and it ends in one way only
(`Brings.unique`).

* `Frame.restLength_split_le`: a frame is not empty;
* `fails_of_receive`: the failures that a link can bring.
-/

namespace VaultLink

namespace Json.Scan

theorem length_advance_le {state : State} {bs rest : Bytes} (h : advance state bs = .complete rest) :
    rest.length ≤ bs.length := by
  induction bs generalizing state with
  | nil => cases h
  | cons b bs ih =>
    unfold advance at h
    split at h
    · exact Nat.le_succ_of_le (ih h)
    · cases h; exact Nat.le_succ _
    · cases h; exact Nat.le_refl _
    · cases h

/-- A value takes its first byte. -/
theorem startValue_ne_ended (within : List Container) (b : UInt8) : startValue within b ≠ .ended := by
  have hite : ∀ (p : Prop) [Decidable p] (x y : Step), x ≠ .ended → y ≠ .ended →
      (if p then x else y) ≠ .ended := by
    intro p _ x y hx hy
    split
    · exact hx
    · exact hy
  unfold startValue
  repeat' apply hite
  all_goals exact fun h => by cases h

theorem length_skip_lt {b : UInt8} {bs rest : Bytes} (h : skip (b :: bs) = .ok rest) :
    rest.length < (b :: bs).length := by
  unfold skip at h
  split at h
  · rename_i state _
    rcases hf : state.finish with e | u <;> rw [hf] at h <;> cases h
    exact Nat.succ_pos _
  · rename_i rest' ha
    cases h
    unfold advance at ha
    split at ha
    · exact Nat.lt_succ_of_le (length_advance_le ha)
    · cases ha; exact Nat.lt_succ_self _
    · rename_i he
      exact absurd he (startValue_ne_ended _ _)
    · cases ha
  · cases h

end Json.Scan

namespace Frame

/-- The number of bytes after a frame, and one more for the frame. -/
def Split.restLength : Split → Nat
  | .message _ rest | .notText _ rest => rest.length + 1
  | _ => 0

theorem restLength_message (blanks : Nat) (value rest : Bytes) :
    (message blanks value rest).restLength = rest.length + 1 := by
  unfold message
  split <;> rfl

/-- A frame is not empty: fewer bytes stay than there were. -/
theorem restLength_split_le (received : Bytes) : (split received).restLength ≤ received.length := by
  have hle := (List.dropWhile_suffix Json.isSpace (l := received)).length_le
  unfold split
  simp only
  split
  · exact Nat.zero_le _
  · rename_i b bs hl
    rw [hl] at hle ⊢
    split
    · repeat' split
      all_goals exact Nat.zero_le _
    · rename_i rest hs
      have := Json.Scan.length_skip_lt hs
      split
      · rw [restLength_message]; omega
      · exact Nat.zero_le _

end Frame

namespace Link

/-- The number of messages that a wait delivered. -/
def Received.messages : Received → Nat
  | message _ => 1
  | _ => 0

/-- The bytes that stay at hand are no more than there were, and fewer if they gave a message. -/
theorem atHand_length (buffer : Bytes) :
    match atHand buffer with
    | .settled outcome rest => rest.length + outcome.messages ≤ buffer.length
    | .wanting rest => rest.length ≤ buffer.length := by
  have h := Frame.restLength_split_le buffer
  unfold atHand
  generalize Frame.split buffer = frame at h ⊢
  cases frame with
  | message => exact h
  | notText => exact Nat.le_of_succ_le h
  | unfinished => exact Nat.le_refl _
  | blank | oversized | unparsable => exact Nat.zero_le _

/-- The number of bytes at hand or under way after a wait. -/
def Reading.volume (reading : Reading) : Nat :=
  reading.buffer.length + Arrival.volumes reading.arrivals

/-- A wait adds no bytes to those at hand or under way, and a message that it delivers takes some
off. -/
theorem readFrom_volume (deadline : Option Instant) (buffer : Bytes) (clock : Instant)
    (arrivals : List Arrival) :
    (readFrom deadline buffer clock arrivals).volume +
        (readFrom deadline buffer clock arrivals).outcome.messages ≤
      buffer.length + Arrival.volumes arrivals := by
  induction arrivals generalizing buffer clock with
  | nil =>
    have h := atHand_length buffer
    unfold readFrom
    split <;> rename_i ha <;> rw [ha] at h
    · simpa only [Reading.volume, Arrival.volumes, Nat.add_zero] using h
    · unfold idle
      split <;> simpa only [Reading.volume, Received.messages, Arrival.volumes,
        Nat.add_zero] using h
  | cons arrival more ih =>
    have h := atHand_length buffer
    unfold readFrom
    split <;> rename_i ha <;> rw [ha] at h
    · simp only [Reading.volume] at h ⊢
      omega
    · rename_i rest
      simp only [Arrival.volumes]
      cases arrival with
      | data bytes =>
        have := ih (rest ++ bytes) clock
        simp only [List.length_append, Arrival.volume] at this ⊢
        omega
      | close | hangUp | fault =>
        simp only [Reading.volume, Received.messages, Arrival.volumes, Arrival.volume]
        omega
      | pause | hold =>
        simp only [Arrival.volume]
        split
        · split
          · simp only [Reading.volume, Received.messages, Arrival.volumes, Arrival.volume]
            omega
          · exact Nat.le_trans (ih rest _) (by omega)
        · exact Nat.le_trans (ih rest _) (by omega)

/-- A message takes bytes off the link. -/
theorem receive_volume {deadline : Option Instant} {link link' : Link} {received : Received}
    (h : link.receive deadline = (received, link')) :
    link'.volume + received.messages ≤ link.volume := by
  cases h
  exact readFrom_volume deadline link.buffer link.clock link.arrivals

/-- How a wait can fail: the stream ends or fails, or its bytes are no message. -/
inductive Fails : Error → Prop
  | disconnected : Fails .disconnected
  | transport (text : String) : Fails (.transport text)
  | malformed (cause : Malformation) : Fails (.malformedMessage cause)

theorem fails_of_atHand {buffer rest : Bytes} {e : Error}
    (h : atHand buffer = .settled (.failed e) rest) : Fails e := by
  unfold atHand at h
  split at h <;> cases h <;> exact .malformed _

theorem fails_of_readFrom {deadline : Option Instant} {buffer : Bytes} {clock : Instant}
    {arrivals : List Arrival} {e : Error}
    (h : (readFrom deadline buffer clock arrivals).outcome = .failed e) : Fails e := by
  induction arrivals generalizing buffer clock with
  | nil =>
    unfold readFrom at h
    split at h
    · rename_i ha
      cases h
      exact fails_of_atHand ha
    · unfold idle at h
      split at h <;> cases h
  | cons arrival more ih =>
    unfold readFrom at h
    split at h
    · rename_i ha
      cases h
      exact fails_of_atHand ha
    · cases arrival with
      | data => exact ih h
      | close | hangUp => cases h; exact .disconnected
      | fault => cases h; exact .transport _
      | pause | hold =>
        simp only at h
        split at h
        · split at h
          · cases h
          · exact ih h
        · exact ih h

/-- The failures that a link can bring. -/
theorem fails_of_receive {deadline : Option Instant} {link link' : Link} {e : Error}
    (h : link.receive deadline = (.failed e, link')) : Fails e :=
  fails_of_readFrom (congrArg Prod.fst h)

/-- Whether a message that was received is a signal. -/
def Received.signal? : Received → Option Signal
  | message text =>
    match Inbound.decode text with
    | .ok (.signal s) => some s
    | _ => none
  | _ => none

theorem Received.messages_of_signal? {received : Received} {s : Signal}
    (h : received.signal? = some s) : received.messages = 1 := by
  cases received with
  | message => rfl
  | _ => cases h

/-- Up to a deadline a link brings signals, in this order, and then something else, which ends the
wait for a reply and leaves the last link. -/
inductive Brings (deadline : Instant) : Link → List Signal → Received → Link → Prop
  | last {link link' : Link} {received : Received} :
    link.receive (some deadline) = (received, link') → received.signal? = none →
    Brings deadline link [] received link'
  | signal {link next link' : Link} {received last : Received} {s : Signal} {signals : List Signal} :
    link.receive (some deadline) = (received, next) → received.signal? = some s →
    Brings deadline next signals last link' → Brings deadline link (s :: signals) last link'

/-- Every wait ends. -/
theorem exists_brings (deadline : Instant) (link : Link) :
    ∃ signals received link', Brings deadline link signals received link' := by
  induction hv : link.volume using Nat.strongRecOn generalizing link with
  | _ volume ih =>
    rcases hr : link.receive (some deadline) with ⟨received, next⟩
    rcases hs : received.signal? with _ | s
    · exact ⟨[], received, next, .last hr hs⟩
    · have hle := receive_volume hr
      rw [Received.messages_of_signal? hs] at hle
      obtain ⟨signals, last, link', hb⟩ := ih next.volume (by omega) next rfl
      exact ⟨s :: signals, last, link', .signal hr hs hb⟩

theorem Brings.exists_receive {deadline : Instant} {link link' : Link} {signals : List Signal}
    {received : Received} (h : Brings deadline link signals received link') :
    ∃ last : Link, last.receive (some deadline) = (received, link') ∧ received.signal? = none := by
  induction h with
  | last hr hs => exact ⟨_, hr, hs⟩
  | signal _ _ _ ih => exact ih

/-- Waiting writes nothing. -/
theorem Brings.written_eq {deadline : Instant} {link link' : Link} {signals : List Signal}
    {received : Received} (h : Brings deadline link signals received link') :
    link'.written = link.written := by
  induction h with
  | last hr => cases hr; rfl
  | signal hr _ _ ih => cases hr; exact ih

/-- A wait ends in one way only. -/
theorem Brings.unique {deadline : Instant} {link link₁ link₂ : Link} {signals₁ signals₂ : List Signal}
    {received₁ received₂ : Received} (h₁ : Brings deadline link signals₁ received₁ link₁)
    (h₂ : Brings deadline link signals₂ received₂ link₂) :
    signals₁ = signals₂ ∧ received₁ = received₂ ∧ link₁ = link₂ := by
  induction h₁ generalizing signals₂ with
  | last hr hs =>
    cases h₂ with
    | last hr' _ =>
      cases hr.symm.trans hr'
      exact ⟨rfl, rfl, rfl⟩
    | signal hr' hs' _ =>
      cases hr.symm.trans hr'
      rw [hs] at hs'
      cases hs'
  | signal hr hs _ ih =>
    cases h₂ with
    | last hr' hs' =>
      cases hr.symm.trans hr'
      rw [hs] at hs'
      cases hs'
    | signal hr' hs' hb =>
      cases hr.symm.trans hr'
      cases hs.symm.trans hs'
      obtain ⟨rfl, rfl, rfl⟩ := ih hb
      exact ⟨rfl, rfl, rfl⟩

end Link

end VaultLink
