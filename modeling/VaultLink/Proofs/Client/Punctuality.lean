import VaultLink.Proofs.Client.Submission
import VaultLink.Proofs.Client.Waiting
import VaultLink.Proofs.Wire.Timetable

/-!
# A reply is awaited up to one deadline

The deadline of a wait for a reply is set once, when the wait starts. Signals are taken and the start of a
message is kept, but neither gives the proxy more time, and once a message other than a signal is complete
nothing that comes later counts (`awaitReply_punctual`).
-/

namespace VaultLink.Client

open Link (Completes schedule signalOf? signalsBy)

variable {σ : Type} {c : Client σ} {wait : Duration}

theorem deadline?_of_lt (h : c.link.clock + wait < Instant.beyond) :
    c.deadline? wait = some (c.link.clock + wait) := if_pos h

/-- Whatever the deadline is, as long as the clock can show it: if every message that the reads complete by
then is a signal, a wait for a reply fails at the deadline, however many signals and bytes have come. If a
message other than a signal is complete before the deadline, the first such message decides the wait when
it is complete, whatever comes after it. -/
theorem awaitReply_punctual (hw : c.link.clock + wait < Instant.beyond) (action : Action) :
    (∀ reads frames, c.link.arrivals = schedule reads →
      Completes c.link.clock c.link.buffer reads frames →
      (∀ frame ∈ frames, frame.1 ≤ c.link.clock + wait → (signalOf? frame.2).isSome) →
      ∃ link, link.clock = c.link.clock + wait ∧
        awaitReply action wait c = .error (.timeout (.noReply action wait))
          (c.heard (signalsBy (c.link.clock + wait) frames) link)) ∧
    (∀ reads later before time text after, c.link.arrivals = schedule reads ++ later →
      Completes c.link.clock c.link.buffer reads (before ++ (time, text) :: after) →
      (∀ frame ∈ before, (signalOf? frame.2).isSome) → signalOf? text = none →
      time < c.link.clock + wait →
      ∃ link, link.clock = time ∧
        awaitReply action wait c = ofExcept (conclude action wait (.message text))
          (c.heard (before.filterMap (signalOf? ·.2)) link)) := by
  have hd := deadline?_of_lt hw
  constructor
  · intro reads frames ha hf hs
    obtain ⟨link, hb, hclock⟩ := hf.exists_brings_late c.link (Nat.le_add_right _ _) rfl rfl ha hs
    exact ⟨link, hclock, awaitReply_of_deadline hd hb⟩
  · intro reads later before time text after ha hf hs hn ht
    obtain ⟨link, hb, hclock⟩ :=
      hf.exists_brings_message c.link (Nat.le_of_lt ht) rfl rfl ha hs hn
    exact ⟨link, hclock, awaitReply_of_deadline hd hb⟩

/-- A signal, and then half a message that is completed only in one of two runs. -/
theorem awaitReply_punctual_twice :
    let lock : String := "\x7b\"action\":\"database-locked\"\x7d"
    let early : List (Instant × Bytes) := [(5, Utf8.encode lock), (9, [0x5B])]
    let silent := connected { Link.fresh 3 with arrivals := schedule early }
    let answered := connected { Link.fresh 3 with
      arrivals := schedule (early ++ [(11, [0x5D])]) ++ [.close] }
    Completes 3 [] early [(5, lock)] ∧ Completes 3 [] (early ++ [(11, [0x5D])]) [(5, lock), (11, "[]")] ∧
    (∃ link, link.clock = 13 ∧ awaitReply .getLogins 10 silent =
      .error (.timeout (.noReply .getLogins 10)) (silent.heard [.databaseLocked] link)) ∧
    ∃ link, link.clock = 11 ∧ awaitReply .getLogins 10 answered =
      ofExcept (conclude .getLogins 10 (.message "[]")) (answered.heard [.databaseLocked] link) := by
  intro lock early silent answered
  have hlock : signalOf? lock = some .databaseLocked := by decide
  have hother : signalOf? "[]" = none := by decide
  have hempty : Link.atHand [] = .wanting [] := rfl
  have hwhole : Link.atHand (Utf8.encode lock) = .settled (.message lock) [] := by
    rw [Link.atHand, show Frame.split (Utf8.encode lock) = .message lock [] by decide]
  have hhalf : Link.atHand [0x5B] = .wanting [0x5B] := rfl
  have hlist : Link.atHand [0x5B, 0x5D] = .settled (.message "[]") [] := by
    rw [Link.atHand, show Frame.split [0x5B, 0x5D] = .message "[]" [] by decide]
  have hsilent : Completes 3 [] early [(5, lock)] :=
    .read hempty (.frame hwhole (.read hempty (.rest hhalf)))
  have hanswered : Completes 3 [] (early ++ [(11, [0x5D])]) [(5, lock), (11, "[]")] :=
    .read hempty (.frame hwhole (.read hempty (.read hhalf (.frame hlist (.rest hempty)))))
  have hlocks : ∀ frame ∈ [((5 : Instant), lock)], (signalOf? frame.2).isSome :=
    List.forall_mem_singleton.2 (by rw [hlock]; rfl)
  have hbeyond : 3 + 10 < Instant.beyond := by decide
  refine ⟨hsilent, hanswered, ?_, ?_⟩
  · exact (awaitReply_punctual (c := silent) hbeyond .getLogins).1 early _ rfl hsilent
      fun frame hm _ => hlocks frame hm
  · exact (awaitReply_punctual (c := answered) hbeyond .getLogins).2 _ [.close] [(5, lock)] 11 "[]"
      [] rfl hanswered hlocks hother (by decide)

end VaultLink.Client
