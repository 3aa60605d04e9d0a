import VaultLink.Proofs.Wire.Pending
import VaultLink.Proofs.Wire.Reassembly

/-!
# Reads with their times

Reads that come at given times complete messages at certain times, whoever waits for them
(`Completes`). A wait with a deadline takes the messages that are complete by then, in order, and no bytes
of an unfinished message hold it up: it is late at the deadline and not after it if all of them are signals
(`Completes.exists_brings_late`), and it ends with the first message that is none as soon as that is
complete, whatever comes later (`Completes.exists_brings_message`, `Announces`).
-/

namespace VaultLink.Link

/-- Reads, each with the time at which its bytes come. -/
def schedule (reads : List (Instant × Bytes)) : List Arrival :=
  reads.flatMap fun read => [.hold read.1, .data read.2]

theorem schedule_cons (time : Instant) (bytes : Bytes) (reads : List (Instant × Bytes)) :
    schedule ((time, bytes) :: reads) = .hold time :: .data bytes :: schedule reads := rfl

/-- The messages that the bytes at hand and the reads to come complete, one after the other and none of
them broken, each with the time at which its last byte is there. -/
inductive Completes : Instant → Bytes → List (Instant × Bytes) → List (Instant × String) → Prop
  | rest {clock : Instant} {buffer kept : Bytes} : atHand buffer = .wanting kept →
    Completes clock buffer [] []
  | read {clock time : Instant} {buffer kept bytes : Bytes} {reads : List (Instant × Bytes)}
    {frames : List (Instant × String)} : atHand buffer = .wanting kept →
    Completes (max clock time) (kept ++ bytes) reads frames →
    Completes clock buffer ((time, bytes) :: reads) frames
  | frame {clock : Instant} {buffer rest : Bytes} {text : String} {reads : List (Instant × Bytes)}
    {frames : List (Instant × String)} : atHand buffer = .settled (.message text) rest →
    Completes clock rest reads frames → Completes clock buffer reads ((clock, text) :: frames)

variable {clock deadline time : Instant} {buffer kept bytes : Bytes} {reads : List (Instant × Bytes)}
  {frames before after : List (Instant × String)} {later : List Arrival} {text : String} {link : Link}

/-- No message is complete before the time that it is. -/
theorem Completes.le_of_mem (h : Completes clock buffer reads frames) :
    ∀ frame ∈ frames, clock ≤ frame.1 := by
  induction h with
  | rest => exact List.forall_mem_nil _
  | read _ _ ih => exact fun frame hm => Nat.le_trans (Nat.le_max_left _ _) (ih frame hm)
  | frame _ _ ih => exact List.forall_mem_cons.2 ⟨Nat.le_refl _, ih⟩

/-- The signal that a text is, if it is one. -/
def signalOf? (text : String) : Option Signal := (Received.message text).signal?

/-- The signals among the messages that are complete by a deadline. -/
def signalsBy (deadline : Instant) (frames : List (Instant × String)) : List Signal :=
  (frames.filter (·.1 ≤ deadline)).filterMap (signalOf? ·.2)

theorem signalsBy_of_forall_lt (h : ∀ frame ∈ frames, deadline < frame.1) :
    signalsBy deadline frames = [] := by
  have hnone : frames.filter (·.1 ≤ deadline) = [] := by
    rw [List.filter_eq_nil_iff]
    intro frame hm hle
    exact Nat.not_le.2 (h frame hm) (of_decide_eq_true hle)
  rw [signalsBy, hnone, List.filterMap_nil]

/-! ## One read -/

/-- Bytes that were kept are still kept when they are looked at again. -/
theorem atHand_of_kept (h : atHand buffer = .wanting kept) : atHand kept = .wanting kept := by
  have hsplit := h
  unfold atHand at hsplit
  split at hsplit <;> cases hsplit
  · rfl
  · exact h

/-- A read in time goes on with its bytes. -/
theorem readFrom_of_read (h : atHand buffer = .wanting kept) (ht : time ≤ deadline)
    (more : List Arrival) :
    readFrom (some deadline) buffer clock (.hold time :: .data bytes :: more) =
      readFrom (some deadline) (kept ++ bytes) (max clock time) more := by
  rw [readFrom, h]
  simp only [if_neg (Nat.not_lt.2 ht)]
  exact readFrom_of_wanting (atHand_of_kept h) _ _ _

/-- A read that is too late ends the wait at the deadline. -/
theorem readFrom_of_late (h : atHand buffer = .wanting kept) (ht : deadline < time)
    (more : List Arrival) :
    readFrom (some deadline) buffer clock (.hold time :: more) =
      ⟨.late, kept, .hold time :: more, max clock deadline⟩ := by
  rw [readFrom, h]
  simp only [if_pos ht]

theorem receive_of_read (hb : atHand link.buffer = .wanting kept) (ht : time ≤ deadline)
    {more : List Arrival} (ha : link.arrivals = .hold time :: .data bytes :: more) :
    link.receive (some deadline) =
      receive (some deadline) { link with
        buffer := kept ++ bytes, clock := max link.clock time, arrivals := more } := by
  simp only [receive, ha, readFrom_of_read hb ht]

theorem receive_of_settled {received : Received} (hb : atHand link.buffer = .settled received kept)
    (deadline : Option Instant) :
    link.receive deadline = (received, { link with buffer := kept }) := by
  simp only [receive, readFrom_of_settled hb]

/-! ## A wait with a deadline -/

/-- If the messages that are complete by the deadline are all signals, they are what a wait takes, and it
is late at the deadline. -/
theorem Completes.exists_brings_late (h : Completes clock buffer reads frames) (link : Link)
    (hc : clock ≤ deadline) (hk : link.clock = clock) (hb : link.buffer = buffer)
    (ha : link.arrivals = schedule reads)
    (hs : ∀ frame ∈ frames, frame.1 ≤ deadline → (signalOf? frame.2).isSome) :
    ∃ link', link.Brings deadline (signalsBy deadline frames) .late link' ∧
      link'.clock = deadline := by
  induction h generalizing link with
  | rest hwant =>
    subst hk hb
    refine ⟨_, .last (Prod.ext ?_ rfl) rfl, ?_⟩ <;>
      simp only [receive, ha, schedule, List.flatMap_nil, readFrom, hwant, idle]
    exact Nat.max_eq_right hc
  | @read clock time buffer kept bytes reads frames hwant hrest ih =>
    subst hk hb
    rcases Nat.lt_or_ge deadline time with hlate | hle
    · have hnone : signalsBy deadline frames = [] := signalsBy_of_forall_lt fun frame hm =>
        Nat.lt_of_lt_of_le hlate (Nat.le_trans (Nat.le_max_right _ _) (hrest.le_of_mem frame hm))
      rw [hnone]
      refine ⟨_, .last (Prod.ext ?_ rfl) rfl, ?_⟩ <;>
        simp only [receive, ha, schedule_cons, readFrom_of_late hwant hlate]
      exact Nat.max_eq_right hc
    · obtain ⟨link', hbrings, hclock⟩ := ih { link with
        buffer := kept ++ bytes, clock := max link.clock time, arrivals := schedule reads }
        (Nat.max_le.2 ⟨hc, hle⟩) rfl rfl rfl hs
      exact ⟨link', hbrings.of_receive_eq (receive_of_read hwant hle ha), hclock⟩
  | @frame clock buffer rest text reads frames hhand hrest ih =>
    subst hk hb
    obtain ⟨hfirst, hmore⟩ := List.forall_mem_cons.1 hs
    obtain ⟨s, hsignal⟩ := Option.isSome_iff_exists.1 (hfirst hc)
    obtain ⟨link', hbrings, hclock⟩ := ih { link with buffer := rest } hc rfl rfl ha hmore
    have hcons : signalsBy deadline ((link.clock, text) :: frames) =
        s :: signalsBy deadline frames := by
      simp only [signalsBy, List.filter_cons, hc, decide_true, if_true, List.filterMap_cons, hsignal]
    rw [hcons]
    exact ⟨link', .signal (receive_of_settled hhand _) hsignal hbrings, hclock⟩

/-- The first message that is no signal ends a wait when it is complete, if that is not after the deadline.
What comes after it does not matter. -/
theorem Completes.exists_brings_message
    (h : Completes clock buffer reads (before ++ (time, text) :: after)) (link : Link)
    (ht : time ≤ deadline)
    (hk : link.clock = clock) (hb : link.buffer = buffer)
    (ha : link.arrivals = schedule reads ++ later)
    (hs : ∀ frame ∈ before, (signalOf? frame.2).isSome) (hn : signalOf? text = none) :
    ∃ link', link.Brings deadline (before.filterMap (signalOf? ·.2)) (.message text) link' ∧
      link'.clock = time := by
  generalize hf : before ++ (time, text) :: after = frames at h
  induction h generalizing link before with
  | rest => cases (List.append_eq_nil_iff.1 hf).2
  | @read clock time' buffer kept bytes reads frames hwant hrest ih =>
    subst hk hb
    have hle : max link.clock time' ≤ time :=
      hrest.le_of_mem (time, text) (hf ▸ List.mem_append_right _ List.mem_cons_self)
    obtain ⟨link', hbrings, hclock⟩ := ih { link with
      buffer := kept ++ bytes, clock := max link.clock time', arrivals := schedule reads ++ later }
      rfl rfl rfl hs hf
    have hread := receive_of_read hwant
      (Nat.le_trans (Nat.le_trans (Nat.le_max_right _ _) hle) ht) ha
    exact ⟨link', hbrings.of_receive_eq hread, hclock⟩
  | @frame clock buffer rest text' reads frames hhand hrest ih =>
    subst hk hb
    cases before with
    | nil =>
      cases hf
      exact ⟨_, .last (receive_of_settled hhand _) hn, rfl⟩
    | cons first before =>
      obtain ⟨rfl, hfs⟩ := List.cons.inj hf
      obtain ⟨hfirst, hmore⟩ := List.forall_mem_cons.1 hs
      obtain ⟨s, hsignal⟩ := Option.isSome_iff_exists.1 hfirst
      obtain ⟨link', hbrings, hclock⟩ :=
        ih { link with buffer := rest } rfl rfl ha hmore hfs
      have hcons : ((link.clock, text') :: before).filterMap (signalOf? ·.2) =
          s :: before.filterMap (signalOf? ·.2) := List.filterMap_cons_some hsignal
      rw [hcons]
      exact ⟨link', .signal (receive_of_settled hhand _) hsignal hbrings, hclock⟩

/-- Before the deadline the reads complete these signals and then a message that is none. What comes after
it is left open. -/
inductive Announces (deadline : Instant) (link : Link) (signals : List Signal) (text : String) : Prop
  | intro {reads : List (Instant × Bytes)} {later : List Arrival} {before after : List (Instant × String)}
    {time : Instant} : link.arrivals = schedule reads ++ later →
    Completes link.clock link.buffer reads (before ++ (time, text) :: after) →
    (∀ frame ∈ before, (signalOf? frame.2).isSome) → before.filterMap (signalOf? ·.2) = signals →
    signalOf? text = none → time < deadline → Announces deadline link signals text

theorem Announces.exists_brings {signals : List Signal} (h : link.Announces deadline signals text) :
    ∃ link', link.Brings deadline signals (.message text) link' := by
  obtain ⟨ha, hf, hs, rfl, hn, ht⟩ := h
  obtain ⟨link', hb, -⟩ := hf.exists_brings_message link (Nat.le_of_lt ht) rfl rfl ha hs hn
  exact ⟨link', hb⟩

end VaultLink.Link
