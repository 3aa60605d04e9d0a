import Mathlib.Data.List.Forall2
import VaultLink.Proofs.Json.Accepting
import VaultLink.Wire.Link

/-!
# Where the received bytes go

A wait for a message loses, doubles and moves no bytes. While it waits it drops bytes at hand only if
they are nothing but blanks (`Waits`); when it ends it takes one frame off their front, after some blanks,
or drops all of them because they are not JSON or too many, or leaves them (`Settles`). So in a run of
waits, with reads coming between and during them, what was delivered or rejected and what is at hand make
up the bytes that were read (`attend_accounts`).

* `Frame.spec_split`: what the received bytes start with;
* `exists_waits_settles`: what a wait does with them.
-/

namespace VaultLink

open Json (isSpace)
open Json.Grammar (Blanks Derives)

namespace Arrival

/-- The bytes that a read gives. -/
def read? : Arrival → Option Bytes
  | data bytes => some bytes
  | _ => none

/-- The reads among some arrivals, in order. -/
def reads (arrivals : List Arrival) : List Bytes := arrivals.filterMap read?

theorem reads_append (arrivals more : List Arrival) :
    reads (arrivals ++ more) = reads arrivals ++ reads more := List.filterMap_append

end Arrival

namespace Frame

/-- Bytes that are one value and have no blanks around it. -/
structure IsFrame (bytes : Bytes) : Prop where
  isValue : Derives .value bytes
  head : ∀ b ∈ bytes.head?, isSpace b = false
  last : ∀ b ∈ bytes.getLast?, isSpace b = false

theorem isFrame_of_derives {bytes : Bytes} (h : Derives .value bytes) : IsFrame bytes :=
  ⟨h, h.isSpace_ends.1, h.isSpace_ends.2⟩

/-- What the received bytes start with, said by the rules of JSON text. -/
def Split.Spec (received : Bytes) : Split → Prop
  | message text rest =>
    ∃ blanks, received = blanks ++ (Utf8.encode text ++ rest) ∧ Blanks blanks ∧
      IsFrame (Utf8.encode text)
  | notText _ rest =>
    ∃ blanks frame, received = blanks ++ (frame ++ rest) ∧ Blanks blanks ∧ IsFrame frame ∧
      ∀ text, frame ≠ Utf8.encode text
  | blank => Blanks received
  | unfinished | oversized | unparsable _ => True

theorem spec_message {blanks value rest : Bytes} (hb : Blanks blanks) (hv : Derives .value value)
    (n : Nat) : (message n value rest).Spec (blanks ++ (value ++ rest)) := by
  unfold message Utf8.decode
  rcases hd : Utf8.decode? value with _ | text
  · refine ⟨blanks, value, rfl, hb, isFrame_of_derives hv, fun text he => ?_⟩
    rw [Utf8.decode?_eq_some_iff.2 he] at hd
    cases hd
  · obtain rfl := Utf8.eq_encode_of_decode? hd
    exact ⟨blanks, rfl, hb, isFrame_of_derives hv⟩

theorem spec_split (received : Bytes) : (split received).Spec received := by
  have hlead : received = received.takeWhile isSpace ++ received.dropWhile isSpace :=
    List.takeWhile_append_dropWhile.symm
  have hblanks : Blanks (received.takeWhile isSpace) := List.all_eq_true.1 List.all_takeWhile
  have hhead : ∀ b ∈ (received.dropWhile isSpace).head?, isSpace b = false := by
    intro b hb
    have := List.head?_dropWhile_not isSpace received
    rw [hb] at this
    simpa using this
  unfold split
  simp only
  generalize received.takeWhile isSpace = blanks at hlead hblanks
  generalize received.dropWhile isSpace = lead at hlead hhead
  subst hlead
  cases lead with
  | nil =>
    rw [List.append_nil]
    exact hblanks
  | cons b bs =>
    simp only
    split
    · split
      · split <;> exact trivial
      · exact trivial
    · rename_i rest hskip
      split
      · obtain ⟨before, value, he, hbefore, hv⟩ := Json.Scan.derives_of_skip hskip
        obtain rfl : before = [] := by
          cases before with
          | nil => rfl
          | cons c before =>
            obtain ⟨rfl, -⟩ := List.cons.inj he
            have hblank := hbefore b List.mem_cons_self
            rw [hhead b rfl] at hblank
            cases hblank
        rw [List.nil_append] at he
        have htake : (b :: bs).take ((b :: bs).length - rest.length) = value := by
          rw [he, List.length_append, Nat.add_sub_cancel, List.take_left]
        rw [htake, he]
        exact spec_message hblanks hv _
      · exact trivial

end Frame

namespace Link

/-- What can come of the bytes at hand while a wait reads on: bytes that are read stand after them, and
bytes that are nothing but blanks are dropped. -/
inductive Waits : Bytes → List Bytes → Bytes → Prop
  | start (buffer : Bytes) : Waits buffer [] buffer
  | read {buffer bytes had : Bytes} {reads : List Bytes} :
    Waits (buffer ++ bytes) reads had → Waits buffer (bytes :: reads) had
  | drop {blanks had : Bytes} {reads : List Bytes} :
    Blanks blanks → Waits [] reads had → Waits blanks reads had

/-- What the end of a wait does with the bytes at hand: those that stay. -/
inductive Settles : Bytes → Received → Bytes → Prop
  | message {blanks rest : Bytes} {text : String} : Blanks blanks → Frame.IsFrame (Utf8.encode text) →
    Settles (blanks ++ (Utf8.encode text ++ rest)) (.message text) rest
  | notText {blanks frame rest : Bytes} (fault : Utf8.Fault) : Blanks blanks → Frame.IsFrame frame →
    (∀ text, frame ≠ Utf8.encode text) →
    Settles (blanks ++ (frame ++ rest)) (.failed (.malformedMessage (.notUtf8 fault))) rest
  | oversized (had : Bytes) : Settles had (.failed (.malformedMessage .oversized)) []
  | unparsable (had : Bytes) (fault : Json.Fault) :
    Settles had (.failed (.malformedMessage (.unparsable fault))) []
  | disconnected (had : Bytes) : Settles had (.failed .disconnected) had
  | transport (had : Bytes) (text : String) : Settles had (.failed (.transport text)) had
  | late (had : Bytes) : Settles had .late had
  | never (had : Bytes) : Settles had .never had

theorem settles_of_atHand {buffer rest : Bytes} {received : Received}
    (h : atHand buffer = .settled received rest) : Settles buffer received rest := by
  have hspec := Frame.spec_split buffer
  unfold atHand at h
  generalize Frame.split buffer = split at h hspec
  cases split with
  | message text rest =>
    cases h
    obtain ⟨blanks, rfl, hb, hf⟩ := hspec
    exact .message hb hf
  | notText fault rest =>
    cases h
    obtain ⟨blanks, frame, rfl, hb, hf, hne⟩ := hspec
    exact .notText fault hb hf hne
  | blank | unfinished => cases h
  | oversized => cases h; exact .oversized _
  | unparsable fault => cases h; exact .unparsable _ _

/-- Bytes at hand with which a wait goes on are left alone, or are blanks and dropped. -/
theorem waits_of_atHand {buffer kept had : Bytes} {reads : List Bytes}
    (h : atHand buffer = .wanting kept) (hw : Waits kept reads had) : Waits buffer reads had := by
  have hspec := Frame.spec_split buffer
  unfold atHand at h
  generalize Frame.split buffer = split at h hspec
  cases split with
  | message | notText | oversized | unparsable => cases h
  | blank => cases h; exact .drop hspec hw
  | unfinished => cases h; exact hw

/-- The reads of a wait are the first of those that are coming. Their bytes go behind the bytes at hand,
and the end of the wait is about what is at hand then. -/
def Reading.Accounts (buffer : Bytes) (coming : List Bytes) (reading : Reading) : Prop :=
  ∃ reads had, coming = reads ++ Arrival.reads reading.arrivals ∧
    Waits buffer reads had ∧ Settles had reading.outcome reading.buffer

theorem Reading.Accounts.of_atHand {buffer kept : Bytes} {coming : List Bytes} {reading : Reading}
    (h : atHand buffer = .wanting kept) (ha : reading.Accounts kept coming) :
    reading.Accounts buffer coming := by
  obtain ⟨reads, had, hc, hw, hs⟩ := ha
  exact ⟨reads, had, hc, waits_of_atHand h hw, hs⟩

/-- A wait that reads nothing more. -/
theorem Reading.accounts_of_settles {buffer kept : Bytes} {received : Received}
    (h : Settles buffer received kept) (arrivals : List Arrival) (clock : Instant) :
    Reading.Accounts buffer (Arrival.reads arrivals) ⟨received, kept, arrivals, clock⟩ :=
  ⟨[], buffer, rfl, .start _, h⟩

theorem accounts_readFrom (deadline : Option Instant) (buffer : Bytes) (clock : Instant)
    (arrivals : List Arrival) :
    (readFrom deadline buffer clock arrivals).Accounts buffer (Arrival.reads arrivals) := by
  induction arrivals generalizing buffer clock with
  | nil =>
    unfold readFrom
    split
    · rename_i ha
      exact Reading.accounts_of_settles (settles_of_atHand ha) _ _
    · rename_i kept ha
      refine .of_atHand ha ?_
      cases deadline with
      | none => exact Reading.accounts_of_settles (.never _) _ _
      | some => exact Reading.accounts_of_settles (.late _) _ _
  | cons arrival more ih =>
    unfold readFrom
    split
    · rename_i ha
      exact Reading.accounts_of_settles (settles_of_atHand ha) _ _
    · rename_i kept ha
      refine .of_atHand ha ?_
      cases arrival with
      | data bytes =>
        obtain ⟨reads, had, hc, hw, hs⟩ := ih (kept ++ bytes) clock
        exact ⟨bytes :: reads, had, congrArg (bytes :: ·) hc, .read hw, hs⟩
      | close | hangUp => exact Reading.accounts_of_settles (.disconnected _) _ _
      | fault text => exact Reading.accounts_of_settles (.transport _ _) more _
      | pause | hold =>
        simp only
        split
        · split
          · exact Reading.accounts_of_settles (.late _) (.hold _ :: more) _
          · exact ih kept _
        · exact ih kept _

/-! ## Waits in a row -/

/-- What a wait has dropped in the end are blanks from the front. -/
theorem Waits.exists_blanks {buffer had : Bytes} {reads : List Bytes} (h : Waits buffer reads had) :
    ∃ blanks, buffer ++ reads.flatten = blanks ++ had ∧ Blanks blanks := by
  induction h with
  | start buffer => exact ⟨[], List.append_nil buffer, List.forall_mem_nil _⟩
  | read _ ih =>
    obtain ⟨blanks, he, hb⟩ := ih
    exact ⟨blanks, by rw [List.flatten_cons, ← List.append_assoc, he], hb⟩
  | @drop dropped had reads hd _ ih =>
    obtain ⟨blanks, he, hb⟩ := ih
    rw [List.nil_append] at he
    refine ⟨dropped ++ blanks, by rw [he, List.append_assoc], fun b hmem => ?_⟩
    exact (List.mem_append.1 hmem).elim (hd b) (hb b)

/-- Whether a wait ended because the bytes at hand were no JSON, or too many. -/
def Received.discards : Received → Bool
  | failed (.malformedMessage .oversized) => true
  | failed (.malformedMessage (.unparsable _)) => true
  | _ => false

/-- Some of the bytes that were read: blanks, and what stands after them. -/
structure Piece where
  blanks : Bytes
  frame : Bytes
  areBlanks : Blanks blanks

/-- The bytes of a piece. -/
def Piece.bytes (piece : Piece) : Bytes := piece.blanks ++ piece.frame

/-- What a wait takes off the bytes that were read: blanks, and the frame that it delivers or rejects. -/
inductive Takes : Received → Piece → Prop
  | message {piece : Piece} {text : String} : piece.frame = Utf8.encode text →
    Frame.IsFrame piece.frame → Takes (.message text) piece
  | notText {piece : Piece} (fault : Utf8.Fault) : (∀ text, piece.frame ≠ Utf8.encode text) →
    Frame.IsFrame piece.frame → Takes (.failed (.malformedMessage (.notUtf8 fault))) piece
  | disconnected {piece : Piece} : piece.frame = [] → Takes (.failed .disconnected) piece
  | transport {piece : Piece} (text : String) : piece.frame = [] →
    Takes (.failed (.transport text)) piece
  | late {piece : Piece} : piece.frame = [] → Takes .late piece
  | never {piece : Piece} : piece.frame = [] → Takes .never piece

/-- A wait that does not discard the bytes at hand takes a piece off their front. -/
theorem exists_takes {buffer had kept : Bytes} {reads : List Bytes} {received : Received}
    (hw : Waits buffer reads had) (hs : Settles had received kept) (hd : received.discards = false) :
    ∃ piece : Piece, buffer ++ reads.flatten = piece.bytes ++ kept ∧ Takes received piece := by
  obtain ⟨dropped, he, hdropped⟩ := hw.exists_blanks
  rw [he]
  have hmore {blanks : Bytes} (hb : Blanks blanks) : Blanks (dropped ++ blanks) := fun b hmem =>
    (List.mem_append.1 hmem).elim (hdropped b) (hb b)
  have hcut {blanks : Bytes} (hb : Blanks blanks) (frame : Bytes) :
      dropped ++ (blanks ++ (frame ++ kept)) =
        (Piece.mk (dropped ++ blanks) frame (hmore hb)).bytes ++ kept := by
    simp only [Piece.bytes, List.append_assoc]
  have hkept : dropped ++ had = (Piece.mk dropped [] hdropped).bytes ++ had := by
    rw [Piece.bytes, List.append_nil]
  cases hs with
  | message hb hf => exact ⟨_, hcut hb _, .message rfl hf⟩
  | notText fault hb hf hne => exact ⟨_, hcut hb _, .notText fault hne hf⟩
  | oversized | unparsable => cases hd
  | disconnected => exact ⟨_, hkept, .disconnected rfl⟩
  | transport => exact ⟨_, hkept, .transport _ rfl⟩
  | late => exact ⟨_, hkept, .late rfl⟩
  | never => exact ⟨_, hkept, .never rfl⟩

/-- A wait in a run: what has been put under way before it, and its deadline. -/
structure Turn where
  arrivals : List Arrival
  deadline : Option Instant

/-- What some waits in a row bring, and the link after them. -/
def attend : List Turn → Link → List Received × Link
  | [], link => ([], link)
  | turn :: turns, link =>
    let (received, next) :=
      receive turn.deadline { link with arrivals := link.arrivals ++ turn.arrivals }
    let (more, last) := attend turns next
    (received :: more, last)

/-- The reads that are put under way during a run. -/
def brought (turns : List Turn) : List Bytes := turns.flatMap fun turn => Arrival.reads turn.arrivals

/-- A run of waits that discards nothing cuts what it reads into pieces, one a wait, and what is at
hand. -/
theorem exists_pieces {turns : List Turn} {link : Link}
    (h : ∀ received ∈ (attend turns link).1, received.discards = false) :
    ∃ reads pieces,
      Arrival.reads link.arrivals ++ brought turns =
        reads ++ Arrival.reads (attend turns link).2.arrivals ∧
      link.buffer ++ reads.flatten = pieces.flatMap Piece.bytes ++ (attend turns link).2.buffer ∧
      List.Forall₂ Takes (attend turns link).1 pieces := by
  induction turns generalizing link with
  | nil => exact ⟨[], [], List.append_nil _, List.append_nil _, .nil⟩
  | cons turn turns ih =>
    rw [attend, List.forall_mem_cons] at h
    obtain ⟨first, had, hcoming, hw, hs⟩ :=
      accounts_readFrom turn.deadline link.buffer link.clock (link.arrivals ++ turn.arrivals)
    obtain ⟨piece, hpiece, htakes⟩ := exists_takes hw hs h.1
    obtain ⟨reads, pieces, hmore, hpieces, hall⟩ := ih h.2
    refine ⟨first ++ reads, piece :: pieces, ?_, ?_, .cons htakes hall⟩
    · rw [brought, List.flatMap_cons, ← List.append_assoc, ← Arrival.reads_append, hcoming,
        List.append_assoc, List.append_assoc]
      exact congrArg _ hmore
    · rw [List.flatten_append, ← List.append_assoc, hpiece, List.append_assoc, List.flatMap_cons,
        List.append_assoc]
      exact congrArg _ hpieces

/-- No bytes are lost, doubled or moved. A wait reads in order and drops nothing but blanks until it ends;
then it takes one frame off the front of what is at hand, or discards all of it, or leaves it. And in a
run of waits none of which discards anything, the frames with blanks between them and what is at hand are
the bytes that were at hand at first and those that were read. -/
theorem attend_accounts (turns : List Turn) (deadline : Option Instant) (link : Link) :
    (∃ reads had,
      Arrival.reads link.arrivals = reads ++ Arrival.reads (link.receive deadline).2.arrivals ∧
      Waits link.buffer reads had ∧
      Settles had (link.receive deadline).1 (link.receive deadline).2.buffer) ∧
    ((∀ received ∈ (attend turns link).1, received.discards = false) →
      ∃ reads pieces,
        Arrival.reads link.arrivals ++ brought turns =
          reads ++ Arrival.reads (attend turns link).2.arrivals ∧
        link.buffer ++ reads.flatten = pieces.flatMap Piece.bytes ++ (attend turns link).2.buffer ∧
        List.Forall₂ Takes (attend turns link).1 pieces) :=
  ⟨accounts_readFrom deadline link.buffer link.clock link.arrivals, exists_pieces⟩

/-- Four waits: one that is late in the middle of a message, one that delivers it, one that rejects a
string that is no UTF-8, and one that finds only a blank. -/
theorem attend_accounts_four :
    let turns : List Turn := [⟨[.data [0x0A, 0x5B], .hold 9], some 5⟩,
      ⟨[.data [0x5D, 0x22], .data [0xFF, 0x22, 0x20]], none⟩, ⟨[], none⟩, ⟨[], none⟩]
    let run := attend turns (fresh 0)
    run.1 = [.late, .message "[]", .failed (.malformedMessage (.notUtf8 ⟨1, some 1⟩)), .never] ∧
    (∀ received ∈ run.1, received.discards = false) ∧
    ∃ reads pieces,
      Arrival.reads (fresh 0).arrivals ++ brought turns = reads ++ Arrival.reads run.2.arrivals ∧
      (fresh 0).buffer ++ reads.flatten = pieces.flatMap Piece.bytes ++ run.2.buffer ∧
      List.Forall₂ Takes run.1 pieces := by
  intro turns run
  have hrun : run.1 =
      [.late, .message "[]", .failed (.malformedMessage (.notUtf8 ⟨1, some 1⟩)), .never] := by
    decide
  have hkeeps : ∀ received ∈ run.1, received.discards = false := by
    rw [hrun]
    simp [Received.discards]
  exact ⟨hrun, hkeeps, (attend_accounts turns none (fresh 0)).2 hkeeps⟩

end Link

end VaultLink
