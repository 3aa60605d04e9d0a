import VaultLink.Proofs.Json.Rendering
import VaultLink.Proofs.Wire.Accounting
import VaultLink.Proofs.Wire.Reassembly

/-!
# How long a message may be

A wait looks at the length of the bytes at hand only if they are not a whole message yet. So a message that
is too long is delivered all the same if the read that crosses the limit completes it, and only the size of
a read bounds what is delivered (`attend_within`). And it is the bytes at hand that are measured, with the
blanks that stand there before the message: it is refused if a read ends inside it when they are too many
(`Crowds`), even if the message alone is not too long (`fares_readFrom`).
-/

namespace VaultLink

open Json (isSpace)
open Json.Grammar (Blanks IsObject)

/-- The start of a message is not too long, or it is refused. -/
theorem Frame.length_le_of_unfinished {received : Bytes} (h : split received = .unfinished) :
    received.length ≤ maxMessageSize := by
  unfold split at h
  simp only at h
  split at h
  · cases h
  · split at h
    · split at h
      · split at h
        · cases h
        · exact Nat.not_lt.1 ‹_›
      · cases h
    · split at h
      · unfold message at h
        split at h <;> cases h
      · cases h

namespace Link

open Json.Edge (ofBytes)

/-! ## What is delivered -/

/-- Neither a message nor what stays is longer than what was at hand. -/
theorem Settles.length_le {had kept : Bytes} {received : Received} (h : Settles had received kept) :
    (∀ text, received = .message text → (Utf8.encode text).length ≤ had.length) ∧
      kept.length ≤ had.length := by
  cases h with
  | message =>
    simp only [Received.message.injEq, forall_eq', List.length_append]
    omega
  | notText =>
    simp only [List.length_append]
    exact ⟨nofun, by omega⟩
  | oversized | unparsable => exact ⟨nofun, Nat.zero_le _⟩
  | disconnected | transport | late | never => exact ⟨nofun, Nat.le_refl _⟩

/-- A wait goes on only with bytes that are not too many. -/
theorem length_le_of_wanting {buffer kept : Bytes} (h : atHand buffer = .wanting kept) :
    kept.length ≤ maxMessageSize := by
  unfold atHand at h
  split at h <;> cases h
  · exact Nat.zero_le _
  · exact Frame.length_le_of_unfinished ‹_›

variable {most : Nat}

/-- The end of a wait is about no more bytes than a message may have and one read brings. -/
theorem exists_settles_within (deadline : Option Instant) {buffer : Bytes} (clock : Instant)
    {arrivals : List Arrival} (hb : buffer.length ≤ maxMessageSize + most)
    (hr : ∀ bytes ∈ Arrival.reads arrivals, bytes.length ≤ most) :
    ∃ had, had.length ≤ maxMessageSize + most ∧ Settles had
      (readFrom deadline buffer clock arrivals).outcome (readFrom deadline buffer clock arrivals).buffer := by
  have hkept {buffer kept : Bytes} (ha : atHand buffer = .wanting kept) :
      kept.length ≤ maxMessageSize + most := Nat.le_add_right_of_le (length_le_of_wanting ha)
  induction arrivals generalizing buffer clock with
  | nil =>
    unfold readFrom
    split
    · exact ⟨buffer, hb, settles_of_atHand ‹_›⟩
    · rename_i kept ha
      refine ⟨kept, hkept ha, ?_⟩
      cases deadline with
      | none => exact .never _
      | some => exact .late _
  | cons arrival more ih =>
    unfold readFrom
    split
    · exact ⟨buffer, hb, settles_of_atHand ‹_›⟩
    · rename_i kept ha
      cases arrival with
      | data bytes =>
        obtain ⟨hbytes, hmore⟩ := List.forall_mem_cons.1 hr
        refine ih clock ?_ hmore
        rw [List.length_append]
        exact Nat.add_le_add (length_le_of_wanting ha) hbytes
      | close | hangUp => exact ⟨kept, hkept ha, .disconnected _⟩
      | fault text => exact ⟨kept, hkept ha, .transport _ _⟩
      | pause | hold =>
        simp only
        split
        · split
          · exact ⟨kept, hkept ha, .late _⟩
          · exact ih _ (hkept ha) hr
        · exact ih _ (hkept ha) hr

/-- So it is in a run of waits. -/
theorem attend_within {turns : List Turn} {link : Link}
    (hb : link.buffer.length ≤ maxMessageSize + most)
    (hr : ∀ bytes ∈ Arrival.reads link.arrivals ++ brought turns, bytes.length ≤ most) :
    (∀ text, .message text ∈ (attend turns link).1 →
      (Utf8.encode text).length ≤ maxMessageSize + most) ∧
    (attend turns link).2.buffer.length ≤ maxMessageSize + most := by
  induction turns generalizing link with
  | nil => exact ⟨fun _ h => absurd h List.not_mem_nil, hb⟩
  | cons turn turns ih =>
    rw [brought, List.flatMap_cons, ← List.append_assoc, ← Arrival.reads_append] at hr
    obtain ⟨hnow, hlater⟩ := List.forall_mem_append.1 hr
    obtain ⟨had, hhad, hs⟩ := exists_settles_within turn.deadline link.clock hb hnow
    obtain ⟨seen, -, hcoming, -⟩ :=
      accounts_readFrom turn.deadline link.buffer link.clock (link.arrivals ++ turn.arrivals)
    rw [hcoming] at hnow
    obtain ⟨htext, hkept⟩ := hs.length_le
    have hcoming' := List.forall_mem_append.2 ⟨(List.forall_mem_append.1 hnow).2, hlater⟩
    obtain ⟨hmore, hlast⟩ := @ih
      (receive turn.deadline { link with arrivals := link.arrivals ++ turn.arrivals }).2
      (Nat.le_trans hkept hhad) hcoming'
    refine ⟨fun text h => ?_, hlast⟩
    rcases List.mem_cons.1 h with h | h
    · exact Nat.le_trans (htext text h.symm) hhad
    · exact hmore text h

/-! ## What is refused -/

/-- The bytes at hand with which a wait goes on if they are the start of a message: blanks alone are
dropped. -/
def trimmed (buffer : Bytes) : Bytes := if Blanks buffer then [] else buffer

/-- The bytes at hand after some reads, as long as no message is whole. -/
def held (buffer : Bytes) : List Bytes → Bytes
  | [] => buffer
  | bytes :: reads => held (trimmed buffer ++ bytes) reads

/-- The bytes at hand, or a read, end before the first `length` bytes do, when the bytes at hand are too many
for a message and not all of them are blanks. -/
def Crowds (length : Nat) (buffer : Bytes) (reads : List Bytes) : Prop :=
  ∃ seen, seen <+: reads ∧ (buffer ++ seen.flatten).length < length ∧ ¬ Blanks (held buffer seen) ∧
    maxMessageSize < (held buffer seen).length

section

variable {buffer bytes : Bytes} {reads : List Bytes} {length dropped : Nat}

theorem length_trimmed_le (buffer : Bytes) : (trimmed buffer).length ≤ buffer.length := by
  unfold trimmed
  split
  · exact Nat.zero_le _
  · exact Nat.le_refl _

/-- Blanks make no difference to where bytes break off. -/
theorem ofBytes_trimmed (buffer : Bytes) : ofBytes (trimmed buffer) = ofBytes buffer := by
  unfold trimmed
  split
  · rename_i hb
    have := Json.Edge.ofBytes_blanks hb []
    rw [List.append_nil] at this
    exact this.symm
  · rfl

theorem length_held_le (buffer : Bytes) (reads : List Bytes) :
    (held buffer reads).length ≤ (buffer ++ reads.flatten).length := by
  induction reads generalizing buffer with
  | nil => simp [held]
  | cons bytes reads ih =>
    have hle := ih (trimmed buffer ++ bytes)
    have htrimmed := length_trimmed_le buffer
    simp only [held, List.flatten_cons, List.length_append] at hle ⊢
    omega

/-- What is crowded has not come in whole. -/
theorem Crowds.length_lt (h : Crowds length buffer reads) : buffer.length < length := by
  obtain ⟨seen, -, hlt, -⟩ := h
  rw [List.length_append] at hlt
  omega

/-- What is crowded is itself too long by two bytes at least, blanks counted. -/
theorem Crowds.limit_lt (h : Crowds length buffer reads) : maxMessageSize + 1 < length := by
  obtain ⟨seen, -, hlt, -, hmax⟩ := h
  have := length_held_le buffer seen
  omega

theorem crowds_of_limit_lt (hlt : buffer.length < length) (hb : ¬ Blanks buffer)
    (hmax : maxMessageSize < buffer.length) (reads : List Bytes) : Crowds length buffer reads :=
  ⟨[], List.nil_prefix, by rwa [List.flatten_nil, List.append_nil], hb, hmax⟩

/-- Bytes at hand with which a wait goes on do not crowd a message themselves. -/
theorem crowds_cons (hd : buffer.length = dropped + (trimmed buffer).length)
    (hb : ¬ (¬ Blanks buffer ∧ maxMessageSize < buffer.length)) :
    Crowds (dropped + length) buffer (bytes :: reads) ↔
      Crowds length (trimmed buffer ++ bytes) reads := by
  constructor
  · rintro ⟨seen, hs, hlt, hblanks, hmax⟩
    rcases List.prefix_cons_iff.1 hs with rfl | ⟨later, rfl, hlater⟩
    · exact absurd ⟨hblanks, hmax⟩ hb
    · refine ⟨later, hlater, ?_, hblanks, hmax⟩
      simp only [List.flatten_cons, List.length_append] at hlt ⊢
      omega
  · rintro ⟨seen, hs, hlt, hblanks, hmax⟩
    refine ⟨bytes :: seen, List.cons_prefix_cons.2 ⟨rfl, hs⟩, ?_, hblanks, hmax⟩
    simp only [List.flatten_cons, List.length_append] at hlt ⊢
    omega

theorem trimmed_trimmed (buffer : Bytes) : trimmed (trimmed buffer) = trimmed buffer := by
  by_cases h : Blanks buffer
  · rw [trimmed, trimmed, if_pos h]
    rfl
  · have hkept : trimmed buffer = buffer := if_neg h
    rw [hkept, hkept]

/-- Neither do they if blanks are dropped from them. -/
theorem crowds_trimmed (hd : buffer.length = dropped + (trimmed buffer).length)
    (hb : ¬ (¬ Blanks buffer ∧ maxMessageSize < buffer.length)) :
    Crowds (dropped + length) buffer reads ↔ Crowds length (trimmed buffer) reads := by
  have hb' : ¬ (¬ Blanks (trimmed buffer) ∧ maxMessageSize < (trimmed buffer).length) := by
    unfold trimmed
    split
    · exact fun hn => hn.1 (List.forall_mem_nil _)
    · exact hb
  cases reads with
  | nil =>
    refine iff_of_false ?_ ?_
    all_goals
      rintro ⟨seen, hs, -, hblanks, hmax⟩
      obtain rfl := List.prefix_nil.1 hs
    · exact hb ⟨hblanks, hmax⟩
    · exact hb' ⟨hblanks, hmax⟩
  | cons bytes reads =>
    have htrimmed : Crowds (0 + length) (trimmed buffer) (bytes :: reads) ↔
        Crowds length (trimmed (trimmed buffer) ++ bytes) reads :=
      crowds_cons (by rw [trimmed_trimmed, Nat.zero_add]) hb'
    rw [trimmed_trimmed, Nat.zero_add] at htrimmed
    rw [crowds_cons hd hb, htrimmed]

end

/-- The failure of a wait that finds too many bytes at hand. -/
def tooLong : Received := .failed (.malformedMessage .oversized)

/-- What the start of an object is to a wait, and what is still to come then. -/
theorem atHand_of_part {blanks buffer missing : Bytes} {text : String} (hb : Blanks blanks)
    (ho : IsObject (Utf8.encode text)) (h : blanks ++ Utf8.encode text = buffer ++ missing)
    (hm : missing ≠ []) :
    atHand buffer = (if ofBytes buffer = .wanting then .settled lacksDigit []
      else if ¬ Blanks buffer ∧ maxMessageSize < buffer.length then .settled tooLong []
      else .wanting (trimmed buffer)) ∧
    ∃ blanks', Blanks blanks' ∧ trimmed buffer ++ missing = blanks' ++ Utf8.encode text := by
  by_cases hblank : Blanks buffer
  · have hplain := Json.Edge.ofBytes_blanks hblank []
    rw [List.append_nil] at hplain
    have htrimmed : trimmed buffer = [] := if_pos hblank
    rw [hplain, htrimmed, if_neg (by decide), if_neg fun hn => hn.1 hblank, atHand,
      Frame.split_of_blanks hblank]
    refine ⟨rfl, ?_⟩
    rcases List.append_eq_append_iff.1 h with ⟨part, rfl, ht⟩ | ⟨blanks', rfl, ht⟩
    · cases part with
      | nil => exact ⟨[], List.forall_mem_nil _, ht.symm⟩
      | cons b part =>
        obtain ⟨inner, he, -⟩ := ho
        obtain ⟨rfl, -⟩ := List.cons.inj (ht.symm.trans he)
        exact absurd (hblank _ (List.mem_append_right _ List.mem_cons_self)) (by decide)
    · exact ⟨blanks', fun b hmem => hb b (List.mem_append_right _ hmem), ht⟩
  · have htrimmed : trimmed buffer = buffer := if_neg hblank
    rw [htrimmed]
    refine ⟨?_, blanks, hb, h.symm⟩
    rcases List.append_eq_append_iff.1 h with ⟨part, rfl, ht⟩ | ⟨blanks', rfl, ht⟩
    · have hp : part ≠ [] := by
        rintro rfl
        exact hblank (by rwa [List.append_nil])
      rw [atHand, Frame.split_of_part hb (ht ▸ ho) hp hm]
      by_cases hw : ofBytes (blanks ++ part) = .wanting
      · rw [if_pos hw, if_pos hw]
        rfl
      · by_cases hmax : maxMessageSize < (blanks ++ part).length
        · rw [if_neg hw, if_neg hw, if_pos hmax, if_pos ⟨hblank, hmax⟩]
          rfl
        · rw [if_neg hw, if_neg hw, if_neg hmax, if_neg fun hn => hmax hn.2]
    · exact absurd (fun b hmem => hb b (List.mem_append_left _ hmem)) hblank

/-- Whether a wait ended because nothing more came in time, or nothing more will. -/
def Received.Stops : Received → Prop
  | late | never | failed .disconnected | failed (.transport _) => True
  | _ => False

/-- What becomes of a message that ends `length` bytes after the bytes at hand start: what the wait brings,
and the bytes that stay. -/
inductive Fares (text : String) (length : Nat) (buffer : Bytes) (arrivals : List Arrival) :
    Received → Bytes → Prop
  | delivered (kept : Bytes) : ¬ Crowds length buffer (Arrival.reads arrivals) →
    Fares text length buffer arrivals (.message text) kept
  | refused : Crowds length buffer (Arrival.reads arrivals) → maxMessageSize + 1 < length →
    Fares text length buffer arrivals tooLong []
  /-- A read ends in a number that lacks a digit. -/
  | broken : ¬ (ofBytes buffer).Intact (Arrival.reads arrivals) →
    Fares text length buffer arrivals lacksDigit []
  /-- Something other than a read came before the message was whole. -/
  | stopped {received : Received} (kept : Bytes) : received.Stops →
    (∃ arrival ∈ arrivals, arrival.read? = none) → Fares text length buffer arrivals received kept

section

variable {text : String} {length dropped : Nat} {buffer kept : Bytes} {received : Received}
  {arrivals : List Arrival}

/-- What becomes of a message that has not come in whole is decided by what comes. -/
theorem Fares.of_data {bytes : Bytes}
    (h : Fares text length (trimmed buffer ++ bytes) arrivals received kept)
    (hd : buffer.length = dropped + (trimmed buffer).length)
    (hb : ¬ (¬ Blanks buffer ∧ maxMessageSize < buffer.length)) :
    Fares text (dropped + length) buffer (.data bytes :: arrivals) received kept := by
  have hcrowds : Crowds (dropped + length) buffer (Arrival.reads (.data bytes :: arrivals)) ↔
      Crowds length (trimmed buffer ++ bytes) (Arrival.reads arrivals) := crowds_cons hd hb
  cases h with
  | delivered _ hc => exact .delivered kept (mt hcrowds.1 hc)
  | refused hc hlt => exact .refused (hcrowds.2 hc) (Nat.lt_add_left dropped hlt)
  | broken hi =>
    refine .broken fun hall => hi ?_
    rw [ofBytes, Json.Edge.after_append, ← ofBytes, ofBytes_trimmed]
    exact (Json.Edge.intact_cons.1 hall).2
  | stopped _ hs ha =>
    obtain ⟨arrival, hmem, hnone⟩ := ha
    exact .stopped kept hs ⟨arrival, List.mem_cons_of_mem _ hmem, hnone⟩

/-- What brings no bytes only drops the blanks at hand. -/
theorem Fares.of_other {arrival : Arrival} (ha : arrival.read? = none)
    (h : Fares text length (trimmed buffer) arrivals received kept)
    (hd : buffer.length = dropped + (trimmed buffer).length)
    (hb : ¬ (¬ Blanks buffer ∧ maxMessageSize < buffer.length)) :
    Fares text (dropped + length) buffer (arrival :: arrivals) received kept := by
  have hreads : Arrival.reads (arrival :: arrivals) = Arrival.reads arrivals := by
    rw [Arrival.reads, List.filterMap_cons, ha]
    rfl
  cases h with
  | delivered _ hc =>
    refine .delivered kept ?_
    rw [hreads, crowds_trimmed hd hb]
    exact hc
  | refused hc hlt =>
    refine .refused ?_ (Nat.lt_add_left dropped hlt)
    rw [hreads, crowds_trimmed hd hb]
    exact hc
  | broken hi =>
    refine .broken ?_
    rwa [hreads, ← ofBytes_trimmed]
  | stopped _ hs => exact .stopped kept hs ⟨arrival, List.mem_cons_self, ha⟩

end

/-- A wait that starts with all of the message at hand. -/
theorem fares_of_whole (deadline : Option Instant) (clock : Instant) {blanks : Bytes} {text : String}
    (hb : Blanks blanks) (ho : IsObject (Utf8.encode text)) (rest : Bytes) (arrivals : List Arrival) :
    Fares text (blanks ++ Utf8.encode text).length (blanks ++ Utf8.encode text ++ rest) arrivals
      (readFrom deadline (blanks ++ Utf8.encode text ++ rest) clock arrivals).outcome
      (readFrom deadline (blanks ++ Utf8.encode text ++ rest) clock arrivals).buffer := by
  rw [readFrom_of_settled (by rw [atHand, Frame.split_object hb ho])]
  refine .delivered rest fun hc => ?_
  have := hc.length_lt
  rw [List.length_append] at this
  omega

/-- A wait that goes on with what it keeps, and what comes next. -/
theorem fares_of_wanting {deadline : Option Instant} {clock : Instant} {buffer : Bytes}
    {arrival : Arrival} {more : List Arrival} {text : String} {length dropped : Nat}
    (ha : atHand buffer = .wanting (trimmed buffer))
    (hd : buffer.length = dropped + (trimmed buffer).length)
    (hb : ¬ (¬ Blanks buffer ∧ maxMessageSize < buffer.length))
    (hdata : ∀ bytes, arrival = .data bytes → Fares text length (trimmed buffer ++ bytes) more
      (readFrom deadline (trimmed buffer ++ bytes) clock more).outcome
      (readFrom deadline (trimmed buffer ++ bytes) clock more).buffer)
    (hother : arrival.read? = none → ∀ clock, Fares text length (trimmed buffer) more
      (readFrom deadline (trimmed buffer) clock more).outcome
      (readFrom deadline (trimmed buffer) clock more).buffer) :
    Fares text (dropped + length) buffer (arrival :: more)
      (readFrom deadline buffer clock (arrival :: more)).outcome
      (readFrom deadline buffer clock (arrival :: more)).buffer := by
  cases arrival with
  | data bytes =>
    simp only [readFrom, ha]
    exact (hdata bytes rfl).of_data hd hb
  | close | hangUp | fault =>
    simp only [readFrom, ha]
    exact .stopped _ trivial ⟨_, List.mem_cons_self, rfl⟩
  | pause | hold =>
    simp only [readFrom, ha]
    split
    · split
      · exact .stopped _ trivial ⟨_, List.mem_cons_self, rfl⟩
      · exact (hother rfl _).of_other rfl hd hb
    · exact (hother rfl _).of_other rfl hd hb

/-- A wait whose bytes start with an object. -/
theorem fares_readFrom (deadline : Option Instant) (clock : Instant) {blanks later buffer : Bytes}
    {text : String} {arrivals : List Arrival} (hb : Blanks blanks) (ho : IsObject (Utf8.encode text))
    (h : buffer ++ (Arrival.reads arrivals).flatten = blanks ++ Utf8.encode text ++ later) :
    Fares text (blanks ++ Utf8.encode text).length buffer arrivals
      (readFrom deadline buffer clock arrivals).outcome
      (readFrom deadline buffer clock arrivals).buffer := by
  induction arrivals generalizing blanks buffer clock with
  | nil =>
    rw [Arrival.reads, List.filterMap_nil, List.flatten_nil, List.append_nil] at h
    subst h
    exact fares_of_whole deadline clock hb ho later []
  | cons arrival more ih =>
    rcases List.append_eq_append_iff.1 h with ⟨missing, hp, hr⟩ | ⟨rest, rfl, -⟩
    swap
    · exact fares_of_whole deadline clock hb ho rest _
    by_cases hm : missing = []
    · subst hm
      rw [List.append_nil] at hp
      subst hp
      have := fares_of_whole deadline clock hb ho [] (arrival :: more)
      rwa [List.append_nil] at this
    obtain ⟨hhand, blanks', hb', hmissing⟩ := atHand_of_part hb ho hp hm
    have hlength := (congrArg List.length hp).trans List.length_append
    by_cases hw : ofBytes buffer = .wanting
    · rw [readFrom_of_settled (by rw [hhand, if_pos hw])]
      exact .broken fun hi => hi.ne_wanting hw
    by_cases hfull : ¬ Blanks buffer ∧ maxMessageSize < buffer.length
    · rw [readFrom_of_settled (by rw [hhand, if_neg hw, if_pos hfull])]
      have hlt : buffer.length < (blanks ++ Utf8.encode text).length := by
        rw [hlength]
        exact Nat.lt_add_of_pos_right (List.length_pos_iff.2 hm)
      have hc := crowds_of_limit_lt hlt hfull.1 hfull.2 (Arrival.reads (arrival :: more))
      exact .refused hc hc.limit_lt
    rw [if_neg hw, if_neg hfull] at hhand
    -- What is kept and what comes start with the same message, and `dropped` blanks fewer.
    have hcoming : trimmed buffer ++ (Arrival.reads (arrival :: more)).flatten =
        blanks' ++ Utf8.encode text ++ later := by
      rw [hr, ← List.append_assoc, hmissing]
    obtain ⟨dropped, hd⟩ := Nat.exists_eq_add_of_le' (length_trimmed_le buffer)
    have hend : (blanks ++ Utf8.encode text).length = dropped + (blanks' ++ Utf8.encode text).length := by
      rw [hlength, hd, ← hmissing, List.length_append, Nat.add_assoc]
    rw [hend]
    refine fares_of_wanting hhand hd hfull (fun bytes hbytes => ih clock hb' ?_) fun hnone clock =>
      ih clock hb' ?_
    · subst hbytes
      rw [← hcoming, List.append_assoc]
      rfl
    · rwa [Arrival.reads, List.filterMap_cons, hnone] at hcoming

/-! ## Messages at the limit -/

/-- Bytes at hand are crowded before the next read if they alone are too long. -/
theorem crowds_one {first second : Bytes} {length : Nat} (hn : ¬ Blanks first) (hs : second ≠ [])
    (h : length = first.length + second.length) :
    Crowds length first [second] ↔ maxMessageSize < first.length := by
  have hkept : trimmed first = first := if_neg hn
  refine ⟨fun hc => ?_, fun hmax => crowds_of_limit_lt ?_ hn hmax _⟩
  · by_contra hmax
    have hfirst : Crowds (0 + length) first [second] ↔ Crowds length (trimmed first ++ second) [] :=
      crowds_cons (by rw [hkept, Nat.zero_add]) fun hf => hmax hf.2
    rw [Nat.zero_add, hkept] at hfirst
    have hlt := (hfirst.1 hc).length_lt
    rw [List.length_append, h] at hlt
    exact Nat.lt_irrefl _ hlt
  · rw [h]
    exact Nat.lt_add_of_pos_right (List.length_pos_iff.2 hs)

/-- An object of which the start is at hand and the rest comes in one read is delivered unless the start is
too long. -/
theorem readFrom_rest {blanks first second : Bytes} {text : String} (hb : Blanks blanks)
    (ho : IsObject (Utf8.encode text)) (h : first ++ second = blanks ++ Utf8.encode text)
    (hs : second ≠ []) (hn : ¬ Blanks first) (hw : ofBytes first ≠ .wanting) (clock : Instant) :
    (readFrom none first clock [.data second]).outcome =
      if maxMessageSize < first.length then tooLong else .message text := by
  have hcoming : first ++ (Arrival.reads [.data second]).flatten =
      blanks ++ Utf8.encode text ++ [] := by
    rw [List.append_nil, ← h]
    exact congrArg (first ++ ·) (List.append_nil second)
  have hlength : (blanks ++ Utf8.encode text).length = first.length + second.length := by
    rw [← h, List.length_append]
  have hcrowds := crowds_one hn hs hlength
  have hintact : (ofBytes first).Intact [second] := by
    have hwhole : ofBytes (first ++ second) = .plain := by
      have hobject := Json.Edge.ofBytes_object ho []
      rw [List.append_nil] at hobject
      rw [h, Json.Edge.ofBytes_blanks hb, hobject]
      rfl
    rw [ofBytes, Json.Edge.after_append] at hwhole
    exact Json.Edge.intact_cons.2 ⟨hw, Json.Edge.intact_nil.2 (hwhole ▸ (by decide))⟩
  have hfares := fares_readFrom none clock hb ho hcoming
  generalize (readFrom none first clock [.data second]).outcome = received at hfares ⊢
  generalize (readFrom none first clock [.data second]).buffer = kept at hfares
  cases hfares with
  | delivered _ hc => exact (if_neg (mt hcrowds.2 hc)).symm
  | refused hc => exact (if_pos (hcrowds.1 hc)).symm
  | broken hi => exact absurd hintact hi
  | stopped _ _ ha =>
    obtain ⟨arrival, hmem, hnone⟩ := ha
    obtain rfl := List.mem_singleton.1 hmem
    cases hnone

/-- An object up to the end of its text, which is as long as given. -/
def filled (n : Nat) : Bytes := [0x7B, 0x22, 0x61, 0x22, 0x3A, 0x22] ++ List.replicate n 0x61

theorem length_filled (n : Nat) : (filled n).length = n + 6 := by
  rw [filled, List.length_append, List.length_replicate, Nat.add_comm]
  rfl

theorem not_blanks_filled (n : Nat) : ¬ Blanks (filled n) := fun h =>
  absurd (h 0x7B List.mem_cons_self) (by decide)

theorem exists_encode_filled (n : Nat) :
    ∃ text, Utf8.encode text = filled n ++ [0x22, 0x7D] ∧ IsObject (Utf8.encode text) ∧
      (Utf8.encode text).length = n + 8 := by
  have hbody : Json.Grammar.Body (List.replicate n 0x61) := by
    induction n with
    | zero => exact .nil
    | succ n ih => exact .plain (by decide) (by decide) (by decide) ih
  have hname : Json.Grammar.Body [0x61] := .plain (by decide) (by decide) (by decide) .nil
  have hmember := Json.Grammar.Derives.member (List.forall_mem_nil _) hname (List.forall_mem_nil _)
    (.item (List.forall_mem_nil _) (.string hbody) (List.forall_mem_nil _))
  have hascii : (filled n ++ [0x22, 0x7D]).all (·.toNat < 128) = true := by
    simp [filled]
  obtain ⟨text, ht⟩ := Json.isText_of_all hascii
  refine ⟨text, ht.symm, ⟨_, ?_, .inr (.lastMember hmember)⟩, ?_⟩
  · rw [← ht]
    simp [filled]
  · rw [← ht, List.length_append, length_filled]
    rfl

theorem ofBytes_filled (n : Nat) : ofBytes (filled n) = .text := by
  have hfill : Json.Edge.text.after (List.replicate n 0x61) = .text := by
    induction n with
    | zero => rfl
    | succ n ih => exact ih
  rw [filled, ofBytes, Json.Edge.after_append]
  exact hfill

/-- How long a message may be. Whatever comes and however the waits end, no message that a run of waits
delivers and no rest is longer than the limit and one read together. And an object that comes after blanks
is refused as too long just if, with these blanks, it crowds the bytes at hand before it is whole, for which
it must be longer than the limit by two bytes at least; otherwise it is delivered, however long it is,
unless a read ends in a number that lacks a digit or something else than a read comes in between. -/
theorem attend_limits (turns : List Turn) (deadline : Option Instant) (link : Link) :
    (∀ most, link.buffer.length ≤ maxMessageSize + most →
      (∀ bytes ∈ Arrival.reads link.arrivals ++ brought turns, bytes.length ≤ most) →
      (∀ text, .message text ∈ (attend turns link).1 →
        (Utf8.encode text).length ≤ maxMessageSize + most) ∧
      (attend turns link).2.buffer.length ≤ maxMessageSize + most) ∧
    ∀ blanks text later, Blanks blanks → IsObject (Utf8.encode text) →
      link.buffer ++ (Arrival.reads link.arrivals).flatten = blanks ++ Utf8.encode text ++ later →
      Fares text (blanks ++ Utf8.encode text).length link.buffer link.arrivals
        (link.receive deadline).1 (link.receive deadline).2.buffer :=
  ⟨fun _ hb hr => attend_within hb hr, fun _ _ _ hb ho h => fares_readFrom deadline link.clock hb ho h⟩

/-- A link with the start of an object at hand, and the end of the object to come. -/
def almost (n : Nat) : Link := { fresh 0 with buffer := filled n, arrivals := [.data [0x22, 0x7D]] }

/-- With as many bytes at hand as a message may have, an object is delivered that is longer than the limit
by the next read; with one byte more, it is refused. -/
theorem attend_limits_at_the_limit :
    ∃ (n : Nat) (text longer : String), (filled n).length = maxMessageSize ∧
      .message text ∈ (attend [⟨[], none⟩] (almost n)).1 ∧
      (Utf8.encode text).length = maxMessageSize + 2 ∧
      (Utf8.encode text).length ≤ maxMessageSize + 2 ∧
      Fares text (maxMessageSize + 2) (filled n) [.data [0x22, 0x7D]] (.message text)
        ((almost n).receive none).2.buffer ∧
      Fares longer (maxMessageSize + 3) (filled (n + 1)) [.data [0x22, 0x7D]] tooLong
        ((almost (n + 1)).receive none).2.buffer := by
  -- The text is left open: no proof step should write it out.
  obtain ⟨n, hn⟩ : ∃ n, maxMessageSize = n + 6 := ⟨16777210, rfl⟩
  have hcut (n : Nat) {text : String} (ht : Utf8.encode text = filled n ++ [0x22, 0x7D]) :
      filled n ++ [0x22, 0x7D] = [] ++ Utf8.encode text := ht.symm
  have hreceive (n : Nat) {text : String} (ht : Utf8.encode text = filled n ++ [0x22, 0x7D])
      (ho : IsObject (Utf8.encode text)) : ((almost n).receive none).1 =
        if maxMessageSize < (filled n).length then tooLong else .message text :=
    readFrom_rest (List.forall_mem_nil _) ho (hcut n ht) (List.cons_ne_nil _ _) (not_blanks_filled n)
      (ofBytes_filled n ▸ (by decide)) 0
  have hcoming (n : Nat) {text : String} (ht : Utf8.encode text = filled n ++ [0x22, 0x7D]) :
      (almost n).buffer ++ (Arrival.reads (almost n).arrivals).flatten =
        [] ++ Utf8.encode text ++ [] := by
    rw [List.append_nil, ← hcut n ht]
    rfl
  obtain ⟨text, ht, ho, hsize⟩ := exists_encode_filled n
  obtain ⟨longer, ht', ho', hsize'⟩ := exists_encode_filled (n + 1)
  have hfilled := length_filled n
  have hfilled' := length_filled (n + 1)
  have hdelivered := hreceive n ht ho
  have hrefused := hreceive (n + 1) ht' ho'
  rw [if_neg (by omega)] at hdelivered
  rw [if_pos (by omega)] at hrefused
  have hmem : .message text ∈ (attend [⟨[], none⟩] (almost n)).1 :=
    List.mem_singleton.2 hdelivered.symm
  have hreads : ∀ bytes ∈ Arrival.reads (almost n).arrivals ++ brought [⟨[], none⟩],
      bytes.length ≤ 2 := List.forall_mem_singleton.2 (by decide)
  have hlength : (almost n).buffer.length ≤ maxMessageSize + 2 := by
    show (filled n).length ≤ maxMessageSize + 2
    omega
  have hfares := (attend_limits [] none (almost n)).2 [] text [] (List.forall_mem_nil _) ho
    (hcoming n ht)
  have hfares' := (attend_limits [] none (almost (n + 1))).2 [] longer [] (List.forall_mem_nil _) ho'
    (hcoming (n + 1) ht')
  rw [List.nil_append, hsize, hdelivered] at hfares
  rw [List.nil_append, hsize', hrefused] at hfares'
  refine ⟨n, text, longer, by omega, hmem, by omega,
    ((attend_limits [⟨[], none⟩] none (almost n)).1 2 hlength hreads).1 text hmem, ?_, ?_⟩
  · rwa [hn]
  · rwa [hn]

/-- An object in two reads is delivered unless the first read alone is too long. -/
theorem receive_two {blanks first second : Bytes} {text : String} (hb : Blanks blanks)
    (ho : IsObject (Utf8.encode text)) (h : first ++ second = blanks ++ Utf8.encode text)
    (hs : second ≠ []) (hn : ¬ Blanks first) (hw : ofBytes first ≠ .wanting) (clock : Instant) :
    ((incoming clock [first, second]).receive none).1 =
      if maxMessageSize < first.length then tooLong else .message text := by
  have hempty : atHand [] = .wanting [] := rfl
  have hread : readFrom none [] clock [.data first, .data second] =
      readFrom none first clock [.data second] := by
    rw [readFrom]
    simp only [hempty, List.nil_append]
  rw [← readFrom_rest hb ho h hs hn hw clock, ← hread]
  rfl

/-- The limit is kept in neither direction. An object that is too long is delivered if the read that crosses
the limit completes it, and one that is not too long is refused for two blanks before it. -/
theorem not_forall_limited :
    (¬ ∀ (clock : Instant) (reads : List Bytes) (text : String),
      ((incoming clock reads).receive none).1 = .message text →
      (Utf8.encode text).length ≤ maxMessageSize) ∧
    ¬ ∀ (clock : Instant) (reads : List Bytes) (blanks : Bytes) (text : String), Blanks blanks →
      IsObject (Utf8.encode text) → reads.flatten = blanks ++ Utf8.encode text →
      (Utf8.encode text).length ≤ maxMessageSize → ((incoming clock reads).receive none).1 ≠ tooLong := by
  -- The text is left open: no proof step should write it out.
  obtain ⟨n, hn⟩ : ∃ n, maxMessageSize = n + 8 := ⟨16777208, rfl⟩
  constructor
  · intro hall
    obtain ⟨text, ht, ho, hsize⟩ := exists_encode_filled (n + 2)
    have hfirst := length_filled (n + 2)
    have hcut : filled (n + 2) ++ [0x22, 0x7D] = [] ++ Utf8.encode text := ht.symm
    have hreceive := receive_two (List.forall_mem_nil _) ho hcut (List.cons_ne_nil _ _)
      (not_blanks_filled (n + 2)) (ofBytes_filled (n + 2) ▸ (by decide)) 0
    rw [if_neg (by omega)] at hreceive
    have hle := hall 0 _ _ hreceive
    omega
  · intro hall
    obtain ⟨text, ht, ho, hsize⟩ := exists_encode_filled n
    have hblanks : Blanks [0x20, 0x20] := by decide
    have hcut : [0x20, 0x20] ++ (filled n ++ [0x22]) ++ [0x7D] = [0x20, 0x20] ++ Utf8.encode text := by
      rw [ht]
      simp only [List.append_assoc, List.cons_append, List.nil_append]
    have hfirst : ([0x20, 0x20] ++ (filled n ++ [0x22]) : Bytes).length = n + 9 := by
      simp only [List.length_append, length_filled, List.length_cons, List.length_nil]
      omega
    have hn' : ¬ Blanks ([0x20, 0x20] ++ (filled n ++ [0x22])) := fun h =>
      not_blanks_filled n fun b hb => h b (List.mem_append_right _ (List.mem_append_left _ hb))
    have hw : ofBytes ([0x20, 0x20] ++ (filled n ++ [0x22])) ≠ .wanting := by
      rw [Json.Edge.ofBytes_blanks hblanks, ofBytes, Json.Edge.after_append, ← ofBytes, ofBytes_filled]
      decide
    have hreceive := receive_two hblanks ho hcut (List.cons_ne_nil _ _) hn' hw 0
    rw [if_pos (by omega)] at hreceive
    refine hall 0 _ _ text hblanks ho ?_ (by omega) hreceive
    rw [← hcut, List.flatten_cons, List.flatten_cons, List.flatten_nil, List.append_nil]

end Link

end VaultLink
