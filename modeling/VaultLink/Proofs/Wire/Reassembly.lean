import VaultLink.Proofs.Json.Edge
import VaultLink.Proofs.Json.Following
import VaultLink.Wire.Link

/-!
# Messages that come in pieces

Messages stand on a stream one after the other, with blanks between them (`Parcel`), and the reader
gets the stream in pieces that may be cut anywhere. Waits for messages, one after the other
(`Link.receiveTimes`), deliver every message and fail nowhere exactly if no piece ends in a number that
lacks a digit: after a minus sign, a point, or the letter or the sign of an exponent.
-/

namespace VaultLink

open Json (Edge isSpace)
open Json.Grammar (Blanks IsObject)

/-- A message on a stream: the text of a JSON object, after some blanks and with them no longer than a
message may be. -/
structure Parcel where
  blanks : Bytes
  text : String
  areBlanks : Blanks blanks
  isObject : IsObject (Utf8.encode text)
  fits : (blanks ++ Utf8.encode text).length ≤ maxMessageSize

/-- The bytes of a message on a stream. -/
def Parcel.bytes (parcel : Parcel) : Bytes := parcel.blanks ++ Utf8.encode parcel.text

namespace Json

/-- Blanks at the front do not change where bytes break off. -/
theorem Edge.ofBytes_blanks {blanks : Bytes} (h : Blanks blanks) (bs : Bytes) :
    Edge.ofBytes (blanks ++ bs) = Edge.ofBytes bs := by
  have hb : Edge.ofBytes blanks = .plain := by
    unfold ofBytes
    induction blanks with
    | nil => rfl
    | cons b blanks ih =>
      rw [Edge.after_cons, Scan.next_of_isSpace (.inl rfl) (h b List.mem_cons_self)]
      exact ih fun b hb => h b (List.mem_cons_of_mem _ hb)
  rw [ofBytes, Edge.after_append]
  exact congrArg (Edge.after · bs) hb

/-- Neither does a whole object. -/
theorem Edge.ofBytes_object {object : Bytes} (h : IsObject object) (bs : Bytes) :
    Edge.ofBytes (object ++ bs) = Edge.ofBytes bs := by
  have hs : Scan.start.place.Sound := trivial
  have ho : Edge.ofBytes object = .plain :=
    Scan.after_of_advance_eq_complete hs (Scan.advance_object h)
  rw [ofBytes, Edge.after_append]
  exact congrArg (Edge.after · bs) ho

/-- The start of an object is a scan under way inside a container. -/
theorem Scan.exists_advance_of_object {part more : Bytes} (h : IsObject (part ++ more))
    (hp : part ≠ []) (hm : more ≠ []) :
    ∃ state, advance start part = .running state ∧ state.within ≠ [] := by
  have hobject := advance_object h
  obtain ⟨inner, he, -⟩ := h
  obtain ⟨b, part, rfl⟩ := List.exists_cons_of_ne_nil hp
  obtain ⟨rfl, -⟩ := List.cons.inj he
  rw [advance_append] at hobject
  cases hrun : advance start (0x7B :: part) with
  | running state =>
    rw [advance_cons_of_more ⟨[.object], .opened⟩ rfl] at hrun
    exact ⟨state, rfl, within_of_advance (List.cons_ne_nil _ _) hrun⟩
  | complete rest =>
    rw [hrun] at hobject
    injection hobject with hrest
    exact absurd (List.append_eq_nil_iff.1 hrest).2 hm
  | failed fault => rw [hrun] at hobject; cases hobject

end Json

namespace Frame

theorem split_of_blanks {bs : Bytes} (h : Blanks bs) : split bs = .blank := by
  have hd : bs.dropWhile isSpace = [] := by
    rw [← List.append_nil bs, List.dropWhile_append_of_pos h, List.dropWhile_nil]
  simp only [split, hd]

/-- The first bytes of an object show where the blanks before it end. -/
theorem dropWhile_isSpace_of_object {object part more : Bytes} (h : IsObject object)
    (hp : object = part ++ more) (hne : part ≠ []) : part.dropWhile isSpace = part := by
  obtain ⟨inner, rfl, -⟩ := h
  obtain ⟨b, part, rfl⟩ := List.exists_cons_of_ne_nil hne
  obtain ⟨rfl, -⟩ := List.cons.inj hp
  rfl

/-- After an object anything may come. -/
theorem mayFollow_object (rest : Bytes) : mayFollow 0x7B rest = true := by
  cases rest <;> rfl

/-- The text of an object is taken off the bytes that it stands before. -/
theorem split_object {blanks : Bytes} {text : String} (hb : Blanks blanks)
    (ho : IsObject (Utf8.encode text)) (rest : Bytes) :
    split (blanks ++ Utf8.encode text ++ rest) = .message text rest := by
  have hskip : Json.Scan.skip (Utf8.encode text ++ rest) = .ok rest := by
    rw [Json.Scan.skip, Json.Scan.advance_append, Json.Scan.advance_object ho]
    rfl
  have hdecode : Utf8.decode (Utf8.encode text) = .ok text := by
    rw [Utf8.decode, Utf8.decode?_encode]
  obtain ⟨inner, he, -⟩ := ho
  have hlead : (blanks ++ Utf8.encode text ++ rest).dropWhile isSpace = Utf8.encode text ++ rest := by
    rw [List.append_assoc, List.dropWhile_append_of_pos hb, he]
    rfl
  have htake : (Utf8.encode text ++ rest).take ((Utf8.encode text ++ rest).length - rest.length) =
      Utf8.encode text := by
    rw [List.length_append, Nat.add_sub_cancel, List.take_left]
  simp only [split, hlead, hskip, htake, message, hdecode]
  rw [he, List.cons_append]
  simp only [mayFollow_object, if_true]

/-- A message is taken off the bytes that it stands before. -/
theorem split_parcel (parcel : Parcel) (rest : Bytes) :
    split (parcel.bytes ++ rest) = .message parcel.text rest :=
  split_object parcel.areBlanks parcel.isObject rest

/-- The start of an object is no JSON if it breaks off in a number that lacks a digit. Otherwise it is
wanting more, unless it is too long already. -/
theorem split_of_part {blanks part more : Bytes} (hb : Blanks blanks) (ho : IsObject (part ++ more))
    (hp : part ≠ []) (hm : more ≠ []) :
    split (blanks ++ part) =
      if Json.Edge.ofBytes (blanks ++ part) = .wanting then .unparsable .badNumber
      else if maxMessageSize < (blanks ++ part).length then .oversized else .unfinished := by
  have hlead : (blanks ++ part).dropWhile isSpace = part := by
    rw [List.dropWhile_append_of_pos hb]
    exact dropWhile_isSpace_of_object ho rfl hp
  have hs : Json.Scan.start.place.Sound := trivial
  obtain ⟨state, ha, hw⟩ := Json.Scan.exists_advance_of_object ho hp hm
  obtain ⟨hsound, hedge⟩ := Json.Scan.edge_of_advance hs ha
  have hskip {fault : Json.Fault} (hf : state.finish = .error fault) :
      Json.Scan.skip part = .error fault := by
    simp only [Json.Scan.skip, ha, hf]
    rfl
  rw [Json.Edge.ofBytes_blanks hb, Json.Edge.ofBytes]
  change state.place.edge = Json.Edge.plain.after part at hedge
  rw [← hedge]
  obtain ⟨b, bs, rfl⟩ := List.exists_cons_of_ne_nil hp
  by_cases hwant : state.place.edge = .wanting
  · simp only [split, hlead, hskip (Json.Scan.finish_of_wanting hwant), if_pos hwant]
    rfl
  · obtain ⟨fault, hf, ht⟩ := Json.Scan.finish_of_ne_wanting hw hsound hwant
    simp only [split, hlead, hskip hf, ht, if_true, if_neg hwant]

/-- The start of a message is not too long. -/
theorem split_of_cut (parcel : Parcel) {part more : Bytes} (hc : Utf8.encode parcel.text = part ++ more)
    (hp : part ≠ []) (hm : more ≠ []) :
    split (parcel.blanks ++ part) =
      if Json.Edge.ofBytes (parcel.blanks ++ part) = .wanting then .unparsable .badNumber
      else .unfinished := by
  have hsize : ¬ maxMessageSize < (parcel.blanks ++ part).length := by
    have := parcel.fits
    rw [hc] at this
    simp only [List.length_append] at this ⊢
    omega
  rw [split_of_part parcel.areBlanks (hc ▸ parcel.isObject) hp hm, if_neg hsize]

end Frame

namespace Json.Edge

/-- None of the reads, which come after bytes that break off at the edge, ends in a number that lacks a
digit, and neither do those bytes. -/
def Intact (edge : Edge) (reads : List Bytes) : Prop :=
  ∀ seen, seen <+: reads → edge.after seen.flatten ≠ .wanting

variable {edge : Edge} {bytes : Bytes} {reads : List Bytes}

theorem Intact.ne_wanting (h : edge.Intact reads) : edge ≠ .wanting := h [] List.nil_prefix

theorem intact_cons :
    edge.Intact (bytes :: reads) ↔ edge ≠ .wanting ∧ (edge.after bytes).Intact reads := by
  constructor
  · intro h
    refine ⟨h.ne_wanting, fun seen hs => ?_⟩
    rw [← after_append, ← List.flatten_cons]
    exact h _ (List.cons_prefix_cons.2 ⟨rfl, hs⟩)
  · rintro ⟨hne, h⟩ seen hs
    rcases List.prefix_cons_iff.1 hs with rfl | ⟨later, rfl, hl⟩
    · exact hne
    · rw [List.flatten_cons, after_append]
      exact h later hl

theorem intact_nil : edge.Intact [] ↔ edge ≠ .wanting := by
  refine ⟨Intact.ne_wanting, fun hne seen hs => ?_⟩
  rw [List.prefix_nil.1 hs]
  exact hne

instance decidableIntact : (edge : Edge) → (reads : List Bytes) → Decidable (edge.Intact reads)
  | _, [] => decidable_of_iff _ intact_nil.symm
  | edge, bytes :: reads =>
    have := decidableIntact (edge.after bytes) reads
    decidable_of_iff _ intact_cons.symm

end Json.Edge

namespace Link

open Json.Edge (ofBytes)

theorem readFrom_of_settled {deadline : Option Instant} {buffer rest : Bytes} {outcome : Received}
    (h : atHand buffer = .settled outcome rest) (clock : Instant) (arrivals : List Arrival) :
    readFrom deadline buffer clock arrivals = ⟨outcome, rest, arrivals, clock⟩ := by
  cases arrivals <;> simp only [readFrom, h]

theorem readFrom_of_wanting {deadline : Option Instant} {buffer kept : Bytes}
    (h : atHand buffer = .wanting kept) (clock : Instant) (bytes : Bytes) (more : List Arrival) :
    readFrom deadline buffer clock (.data bytes :: more) =
      readFrom deadline (kept ++ bytes) clock more := by
  simp only [readFrom, h]

/-- What the start of a message is to a wait: broken, if it ends in a number that lacks a digit, and
otherwise the start of a message with the same text, which is kept. -/
theorem atHand_of_cut {parcel : Parcel} {buffer missing : Bytes}
    (h : parcel.bytes = buffer ++ missing) (hm : missing ≠ []) :
    (ofBytes buffer = .wanting ∧
      atHand buffer = .settled (.failed (.malformedMessage (.unparsable .badNumber))) []) ∨
    (ofBytes buffer ≠ .wanting ∧ ∃ kept, atHand buffer = .wanting kept ∧
      ofBytes kept = ofBytes buffer ∧
      ∃ parcel' : Parcel, parcel'.text = parcel.text ∧ parcel'.bytes = kept ++ missing) := by
  rcases List.append_eq_append_iff.1 h.symm with ⟨blanks, hb, rfl⟩ | ⟨part, rfl, ht⟩
  · -- The blanks that have come are dropped.
    have hblank : Blanks buffer := fun b hmem =>
      parcel.areBlanks b (hb ▸ List.mem_append_left _ hmem)
    have hplain : ofBytes buffer = .plain := by
      have := Json.Edge.ofBytes_blanks hblank []
      rwa [List.append_nil] at this
    refine .inr ⟨by rw [hplain]; decide, [], by rw [atHand, Frame.split_of_blanks hblank],
      hplain.symm, ⟨blanks, parcel.text, ?_, parcel.isObject, ?_⟩, rfl, rfl⟩
    · exact fun b hmem => parcel.areBlanks b (hb ▸ List.mem_append_right _ hmem)
    · have := parcel.fits
      rw [hb] at this
      simp only [List.length_append] at this ⊢
      omega
  · rcases part with _ | ⟨b, part⟩
    · -- All the blanks have come, and nothing else.
      have hplain := Json.Edge.ofBytes_blanks parcel.areBlanks []
      refine .inr ⟨by rw [hplain]; decide, [], ?_, hplain.symm,
        ⟨[], parcel.text, List.forall_mem_nil _, parcel.isObject, ?_⟩, rfl, ht⟩
      · rw [atHand, List.append_nil, Frame.split_of_blanks parcel.areBlanks]
      · have := parcel.fits
        simp only [List.length_append, List.nil_append] at this ⊢
        omega
    · have hsplit := Frame.split_of_cut parcel ht (List.cons_ne_nil _ _) hm
      by_cases hw : ofBytes (parcel.blanks ++ b :: part) = .wanting
      · rw [if_pos hw] at hsplit
        exact .inl ⟨hw, by rw [atHand, hsplit]⟩
      · rw [if_neg hw] at hsplit
        exact .inr ⟨hw, _, by rw [atHand, hsplit], rfl, parcel, rfl, h⟩

/-- How the wait for a message ends that the bytes at hand and the reads to come start with. -/
inductive Meets (text : String) (clock : Instant) (buffer : Bytes) (reads : List Bytes)
    (later : Bytes) : Reading → Prop
  /-- The message is delivered. Whether numbers lack digits is then a matter of what comes after it. -/
  | delivered {rest : Bytes} {more : List Bytes} : rest ++ more.flatten = later → more <:+ reads →
    ((ofBytes buffer).Intact reads ↔ (ofBytes rest).Intact more) →
    Meets text clock buffer reads later ⟨.message text, rest, more.map .data, clock⟩
  /-- A read ends in a number that lacks a digit. -/
  | broken {reading : Reading} :
    reading.outcome = .failed (.malformedMessage (.unparsable .badNumber)) →
    ¬ (ofBytes buffer).Intact reads → Meets text clock buffer reads later reading

/-- A wait that starts with all of the message at hand. -/
theorem meets_of_whole (deadline : Option Instant) (clock : Instant) (parcel : Parcel) (rest : Bytes)
    (reads : List Bytes) :
    Meets parcel.text clock (parcel.bytes ++ rest) reads (rest ++ reads.flatten)
      (readFrom deadline (parcel.bytes ++ rest) clock (reads.map .data)) := by
  rw [readFrom_of_settled (by rw [atHand, Frame.split_parcel])]
  refine .delivered rfl List.suffix_rfl ?_
  rw [Parcel.bytes, List.append_assoc, Json.Edge.ofBytes_blanks parcel.areBlanks,
    Json.Edge.ofBytes_object parcel.isObject]

theorem meets_readFrom (deadline : Option Instant) (clock : Instant) {parcel : Parcel}
    {buffer later : Bytes} {reads : List Bytes}
    (h : buffer ++ reads.flatten = parcel.bytes ++ later) :
    Meets parcel.text clock buffer reads later (readFrom deadline buffer clock (reads.map .data)) := by
  induction reads generalizing parcel buffer with
  | nil =>
    rw [List.flatten_nil, List.append_nil] at h
    subst h
    have := meets_of_whole deadline clock parcel later []
    rwa [List.flatten_nil, List.append_nil] at this
  | cons bytes reads ih =>
    rcases List.append_eq_append_iff.1 h with ⟨missing, hp, hr⟩ | ⟨rest, rfl, rfl⟩
    · by_cases hm : missing = []
      · subst hm
        rw [List.append_nil] at hp
        have := meets_of_whole deadline clock parcel [] (bytes :: reads)
        rwa [List.append_nil, List.nil_append, hr, List.nil_append, hp] at this
      · rcases atHand_of_cut hp hm with ⟨hw, ha⟩ | ⟨hw, kept, ha, hk, parcel', ht, hb⟩
        · rw [readFrom_of_settled ha]
          exact .broken rfl fun hi => hi.ne_wanting hw
        · have hread : kept ++ bytes ++ reads.flatten = parcel'.bytes ++ later := by
            rw [hb, List.append_assoc, List.append_assoc, ← hr, List.flatten_cons]
          have hedge : (ofBytes buffer).after bytes = ofBytes (kept ++ bytes) := by
            rw [← hk, ofBytes, ofBytes, Json.Edge.after_append]
          have hintact : (ofBytes buffer).Intact (bytes :: reads) ↔
              (ofBytes (kept ++ bytes)).Intact reads := by
            rw [Json.Edge.intact_cons, hedge]
            exact and_iff_right hw
          rw [List.map_cons, readFrom_of_wanting ha, ← ht]
          have hmeets := ih hread
          generalize readFrom deadline (kept ++ bytes) clock (reads.map .data) = reading at hmeets ⊢
          cases hmeets with
          | delivered hl hs hi =>
            exact .delivered hl (hs.trans (List.suffix_cons _ _)) (hintact.trans hi)
          | broken ho hi => exact .broken ho (hi ∘ hintact.1)
    · exact meets_of_whole deadline clock parcel rest _

/-! ## Waits in a row -/

/-- What so many waits bring, one after the other, and the link after them. -/
def receiveTimes (deadline : Option Instant) : Nat → Link → List Received × Link
  | 0, link => ([], link)
  | n + 1, link =>
    let (received, next) := link.receive deadline
    let (more, last) := receiveTimes deadline n next
    (received :: more, last)

/-- A fresh link to which the reads will come. -/
def incoming (clock : Instant) (reads : List Bytes) : Link :=
  { fresh clock with arrivals := reads.map .data }

/-- The failure of a wait whose bytes break off in a number that lacks a digit. -/
def lacksDigit : Received := .failed (.malformedMessage (.unparsable .badNumber))

/-- Some messages on a stream are delivered one by one, and leave what comes after them, unless a read
ends in a number that lacks a digit. -/
theorem receiveTimes_parcels (deadline : Option Instant) {parcels : List Parcel} {link : Link}
    {reads : List Bytes} {later : Bytes} (ha : link.arrivals = reads.map .data)
    (h : link.buffer ++ reads.flatten = parcels.flatMap Parcel.bytes ++ later) :
    (∃ rest more, receiveTimes deadline parcels.length link =
        (parcels.map (.message ·.text), { link with buffer := rest, arrivals := more.map .data }) ∧
      rest ++ more.flatten = later ∧ more <:+ reads ∧
      ((ofBytes link.buffer).Intact reads ↔ (ofBytes rest).Intact more)) ∨
    (lacksDigit ∈ (receiveTimes deadline parcels.length link).1 ∧
      ¬ (ofBytes link.buffer).Intact reads) := by
  induction parcels generalizing link reads with
  | nil =>
    obtain ⟨buffer, arrivals, clock, writeFault, answers, written⟩ := link
    subst ha
    exact .inl ⟨buffer, reads, rfl, h, List.suffix_rfl, Iff.rfl⟩
  | cons parcel parcels ih =>
    obtain ⟨buffer, arrivals, clock, writeFault, answers, written⟩ := link
    subst ha
    rw [List.flatMap_cons, List.append_assoc] at h
    have hmeets := meets_readFrom deadline clock h
    simp only [List.length_cons, receiveTimes, receive, List.map_cons]
    generalize readFrom deadline buffer clock (reads.map .data) = reading at hmeets ⊢
    cases hmeets with
    | @delivered rest more hl hs hi =>
      have hnext := @ih ⟨rest, more.map .data, clock, writeFault, answers, written⟩ more rfl hl
      rcases hnext with ⟨rest', more', hr, hl', hs', hi'⟩ | ⟨hne, hi'⟩
      · exact .inl ⟨rest', more', by rw [hr], hl', hs'.trans hs, hi.trans hi'⟩
      · exact .inr ⟨List.mem_cons_of_mem _ hne, hi' ∘ hi.1⟩
    | broken ho hi => exact .inr ⟨by rw [ho]; exact List.mem_cons_self, hi⟩

/-- Blanks never end in a number. -/
theorem intact_of_blanks {rest : Bytes} {more : List Bytes} (h : Blanks (rest ++ more.flatten)) :
    (ofBytes rest).Intact more := by
  rintro seen ⟨unseen, rfl⟩
  have hb : Blanks (rest ++ seen.flatten) := by
    rw [List.flatten_append, ← List.append_assoc] at h
    exact fun b hmem => h b (List.mem_append_left _ hmem)
  have hplain := Json.Edge.ofBytes_blanks hb []
  rw [List.append_nil] at hplain
  rw [ofBytes, ← Json.Edge.after_append, ← ofBytes, hplain]
  decide

/-- Messages that come in pieces are delivered, each as it was sent and in order, if and only if no read
ends in a number that lacks a digit; and if one does, it is for this that a wait fails. -/
theorem receiveTimes_incoming (deadline : Option Instant) (clock : Instant) (parcels : List Parcel)
    (trailing : Bytes) (reads : List Bytes) (hb : Blanks trailing)
    (h : reads.flatten = parcels.flatMap Parcel.bytes ++ trailing) :
    let received := (receiveTimes deadline parcels.length (incoming clock reads)).1
    (received = parcels.map (.message ·.text) ↔
      ∀ seen, seen <+: reads → ofBytes seen.flatten ≠ .wanting) ∧
    (received = parcels.map (.message ·.text) ∨ lacksDigit ∈ received) := by
  intro received
  have ha : (incoming clock reads).arrivals = reads.map .data := rfl
  rcases receiveTimes_parcels deadline ha h with ⟨rest, more, hr, hl, -, hi⟩ | ⟨hmem, hi⟩
  · have hall : received = parcels.map (.message ·.text) := congrArg Prod.fst hr
    exact ⟨iff_of_true hall (hi.2 (intact_of_blanks (hl ▸ hb))), .inl hall⟩
  · have hne : received ≠ parcels.map (.message ·.text) := by
      intro he
      have hmap : lacksDigit ∈ parcels.map (Received.message ·.text) := he ▸ hmem
      obtain ⟨parcel, -, hp⟩ := List.mem_map.1 hmap
      cases hp
    exact ⟨iff_of_false hne hi, .inr hmem⟩

/-- An object with a negative number, on a line of its own. -/
def negative : Parcel where
  blanks := [0x0A]
  text := "\x7b\"a\":-1\x7d"
  areBlanks := by decide
  isObject := by
    have hnumeral : Json.Grammar.Numeral [0x2D, 0x31] :=
      .parts (.inr rfl) (.digits rfl (by decide) (List.forall_mem_nil _)) .absent .absent
    have hitem : Json.Grammar.Derives .item [0x2D, 0x31] :=
      .item (List.forall_mem_nil _) (.number hnumeral) (List.forall_mem_nil _)
    have hmember : Json.Grammar.Derives .member [0x22, 0x61, 0x22, 0x3A, 0x2D, 0x31] :=
      .member (List.forall_mem_nil _) (.plain (by decide) (by decide) (by decide) .nil)
        (List.forall_mem_nil _) hitem
    exact ⟨_, by decide, .inr (.lastMember hmember)⟩
  fits := by decide

/-- Two messages in three reads, the first of which ends in the middle of a number. -/
theorem receiveTimes_incoming_twice :
    let reads := [[0x0A, 0x7B, 0x22, 0x61, 0x22, 0x3A, 0x2D, 0x31], [0x7D, 0x0A],
      [0x7B, 0x22, 0x61, 0x22, 0x3A, 0x2D, 0x31, 0x7D, 0x20]]
    Blanks [0x20] ∧ reads.flatten = [negative, negative].flatMap Parcel.bytes ++ [0x20] ∧
    (receiveTimes none 2 (incoming 0 reads)).1 =
      [.message "\x7b\"a\":-1\x7d", .message "\x7b\"a\":-1\x7d"] := by
  intro reads
  have hb : Blanks [0x20] := by decide
  have hreads : reads.flatten = [negative, negative].flatMap Parcel.bytes ++ [0x20] := by decide
  have hintact : (ofBytes []).Intact reads := by decide
  exact ⟨hb, hreads,
    (receiveTimes_incoming none 0 [negative, negative] [0x20] reads hb hreads).1.2 hintact⟩

/-- A message of which the first read ends after the minus sign is lost. -/
theorem not_forall_receiveTimes_incoming :
    ¬ ∀ (deadline : Option Instant) (clock : Instant) (parcels : List Parcel) (trailing : Bytes)
        (reads : List Bytes), Blanks trailing → (∀ bytes ∈ reads, bytes ≠ []) →
      reads.flatten = parcels.flatMap Parcel.bytes ++ trailing →
      (receiveTimes deadline parcels.length (incoming clock reads)).1 =
        parcels.map (.message ·.text) := by
  intro hall
  have hlost := hall none 0 [negative] []
    [[0x0A, 0x7B, 0x22, 0x61, 0x22, 0x3A, 0x2D], [0x31, 0x7D]] (by decide) (by decide) (by decide)
  have hfails : (receiveTimes none 1 (incoming 0
      [[0x0A, 0x7B, 0x22, 0x61, 0x22, 0x3A, 0x2D], [0x31, 0x7D]])).1 = [lacksDigit] := by decide
  rw [List.length_singleton, hfails] at hlost
  cases hlost

end Link

end VaultLink
