import VaultLink.Proofs.Client.Gating
import VaultLink.Proofs.Client.Lagging

/-!
# Signals at hand

A signal that the link holds when an operation is called is taken as soon as the operation waits, and not
before. So a client that need not ask anything to make sure of its association writes the privileged
request first and takes the signal next; any other writes it only after the proxy has accepted the record
since the signal (`rechecked_of_holds`).
-/

namespace VaultLink

namespace Client

variable {σ α : Type} {b c d : Client σ} {s : Signal} {action : Action} {m : Outbound}
  {fields body : Json.Members} {triggerUnlock : Bool} {hash : String} {record : Association}

/-! ## Round trips -/

/-- What passes over a link that holds a signal: nothing, or a message without a wait for the reply, or a
message and next the signal. Until the signal is taken, nothing is read and no time passes. -/
inductive TakesNext (s : Signal) (link link' : Link) : List Note → Prop
  | nothing : link.Undisturbed link' → TakesNext s link link' []
  | unheard (first : Outbound) : link.Undisturbed link' → TakesNext s link link' [.sent first]
  | taken (first : Outbound) (since : List Note) :
    TakesNext s link link' (.sent first :: .signal s :: since)

/-- A round trip over a link that holds a signal takes it next after the request is written, or fails
without having waited. -/
theorem exists_trip_of_holds (h : c.link.Holds s) (action : Action) (fields : Json.Members)
    (triggerUnlock : Bool) :
    ∃ message signals, Trip action c message signals (roundTrip action fields triggerUnlock c) ∧
      ((∃ first more, message = some first ∧ signals = s :: more) ∨
        signals = [] ∧ ∃ e d, roundTrip action fields triggerUnlock c = .error e d ∧
          c.link.Undisturbed d.link) := by
  obtain ⟨message, signals, htrip, hs⟩ := exists_trip_roundTrip_brings action fields triggerUnlock c
  refine ⟨message, signals, htrip, hs.imp_left ?_⟩
  rintro ⟨request, sent, deadline, received, link, rfl, hw, hb⟩
  obtain ⟨bytes, -, hl⟩ := (submit_eq_ok hw).written
  obtain ⟨more, rfl⟩ := (h.congr (Link.undisturbed_of_send hl).buffer_eq).exists_eq_cons hb
  exact ⟨_, more, rfl, rfl⟩

/-- A reply that is accepted over such a link came after the signal, and nothing that was known of the
database is known any more. -/
theorem roundTrip_eq_ok_of_holds (h : c.link.Holds s)
    (hr : roundTrip action fields triggerUnlock c = .ok body d) :
    ∃ first since reply, d.journal = c.journal ++ .sent first :: .signal s :: since ∧
      .accepted reply body ∈ since ∧ reply.action = action ∧ d.databaseHash = none ∧
      d.association = .unknown := by
  obtain ⟨message, signals, htrip, hs⟩ := exists_trip_of_holds h action fields triggerUnlock
  rw [hr] at htrip hs
  obtain ⟨reply, hpass⟩ := htrip
  obtain ⟨first, rfl, -⟩ := hpass.reply_nonce _ rfl
  obtain ⟨-, more, -, rfl⟩ := hs.resolve_right fun ⟨_, _, _, he, _⟩ => by cases he
  exact ⟨first, more.map Note.signal ++ [Note.accepted reply body], reply, hpass.journal_eq, by simp,
    hpass.reply_action _ rfl, hpass.databaseHash_eq, hpass.association_eq⟩

/-! ## Making sure of the association -/

/-- What passes while a client makes sure of the association, passes while it asks for the database and then
checks the record. -/
theorem aside_ensureAssociated [AssociationStore σ] (c : Client σ) :
    Aside c (after ensureAssociated c) ∨
    Aside (after currentDatabase c) (after ensureAssociated c) ∨
    ∃ hash d record, currentDatabase c = .ok hash d ∧
      Aside (after (testAssociate record) d) (after ensureAssociated c) := by
  rw [after, ensureAssociated_eq]
  rcases c.session.requirePeer with e | peer
  · exact .inl (.refl c)
  simp only
  rcases hc : currentDatabase c with ⟨hash, d⟩ | ⟨e, d⟩
  · rw [after_of_ok hc]
    simp only
    rcases d.registry.lookup hash with _ | record
    · exact .inr (.inl ⟨rfl, rfl, rfl, rfl⟩)
    by_cases hv : d.association = .validated
    · simp only [if_pos hv]
      exact .inr (.inl (.refl d))
    refine .inr (.inr ⟨hash, d, record, rfl, ?_⟩)
    rcases ht : testAssociate record d with ⟨outcome, b⟩ | ⟨e, b⟩ <;> simp only [if_neg hv, ht]
    · rw [after_of_ok ht]
      by_cases ho : outcome = .valid
      · simp only [if_pos ho]
        exact ⟨rfl, rfl, rfl, rfl⟩
      by_cases hh : b.databaseHash = some hash
      · simp only [if_neg ho, if_pos hh]
        rcases b.registry.evict hash with ⟨e | _, registry⟩ <;> exact ⟨rfl, rfl, rfl, rfl⟩
      · simp only [if_neg ho, if_neg hh]
        exact .refl b
    · rw [after_of_error ht]
      exact .refl b
  · rw [after_of_error hc]
    exact .inr (.inl (.refl d))

/-- From `c` to `d`, no privileged request was written. -/
def Defers (c d : Client σ) : Prop :=
  ∃ notes, d.journal = c.journal ++ notes ∧
    ∀ m, .sent m ∈ notes → m.action.requiresAssociation = false

namespace Defers

theorem refl (c : Client σ) : Defers c c := ⟨[], (List.append_nil _).symm, fun _ h => by cases h⟩

theorem trans (h : Defers b c) (h' : Defers c d) : Defers b d := by
  obtain ⟨notes, hj, hn⟩ := h
  obtain ⟨more, hj', hm⟩ := h'
  refine ⟨notes ++ more, by rw [hj', hj, List.append_assoc], fun m hs => ?_⟩
  exact (List.mem_append.1 hs).elim (hn m) (hm m)

theorem of_aside (h : Aside c d) : Defers c d :=
  ⟨[], h.journal_eq.trans (List.append_nil _).symm, fun _ h => by cases h⟩

/-- A question about another action writes no privileged request. -/
theorem of_asks {m : Run σ α} (h : c.Asks action m) (ha : action.requiresAssociation = false) :
    Defers c (after m c) := by
  obtain ⟨fields, triggerUnlock, haside, -⟩ := h
  refine .trans ?_ (.of_aside haside)
  obtain ⟨message, signals, htrip⟩ := exists_trip_roundTrip action fields triggerUnlock c
  obtain ⟨answer, hpass, -⟩ := exists_passes_of_trip htrip
  refine ⟨_, hpass.journal_eq, fun m hs => ?_⟩
  obtain ⟨before, later, hpassage⟩ := List.append_of_mem hs
  obtain ⟨-, rfl⟩ := passage_eq_append_sent hpassage
  rw [hpass.message_action m rfl]
  exact ha

theorem testAssociate (record : Association) (c : Client σ) :
    Defers c (after (testAssociate record) c) := by
  rcases hp : c.session.requirePeer with e | peer
  · rw [after_of_error (by rw [testAssociate_eq, hp])]
    exact .refl c
  · exact .of_asks (Asks.testAssociate hp record) rfl

theorem currentDatabase (c : Client σ) : Defers c (after currentDatabase c) := by
  rw [after, currentDatabase_eq]
  cases c.databaseHash with
  | some => exact .refl c
  | none => exact .of_asks (Asks.getDatabaseHash _ c) rfl

variable [AssociationStore σ]

theorem ensureAssociated (c : Client σ) : Defers c (after ensureAssociated c) := by
  have hcurrent := currentDatabase c
  rcases aside_ensureAssociated c with haside | haside | ⟨hash, d, record, hc, haside⟩
  · exact .of_aside haside
  · exact hcurrent.trans (.of_aside haside)
  · rw [after_of_ok hc] at hcurrent
    exact hcurrent.trans ((testAssociate record d).trans (.of_aside haside))

end Defers

/-- Among the notes is an accepted reply that tells the hash of the database. -/
def Reports (notes : List Note) (hash : String) : Prop :=
  ∃ reply body, .accepted reply body ∈ notes ∧ reply.action = .getDatabaseHash ∧
    requireText body "hash" = .ok hash

/-- Among the notes is an accepted reply to a check by which the proxy accepts a record. -/
def Accepts (notes : List Note) (record : Association) : Prop :=
  ∃ reply body, .accepted reply body ∈ notes ∧ reply.action = .testAssociate ∧
    Verdict.ofReply record body = .accepted

/-- Since a signal that came right after the first message, the proxy accepted the record of the current
database, and told which one that is unless it was known before. -/
def Rechecked (c : Client σ) (s : Signal) (past : List Note) : Prop :=
  ∃ first since hash record, past = .sent first :: .signal s :: since ∧
    (c.databaseHash = some hash ∨ c.databaseHash = none ∧ Reports since hash) ∧
    c.registry.lookup hash = some record ∧ Accepts since record

/-- A hash that is asked for over a link that holds a signal is told since the signal. -/
theorem getDatabaseHash_eq_ok_of_holds (h : c.link.Holds s)
    (hg : getDatabaseHash triggerUnlock c = .ok hash d) :
    ∃ first since, d.journal = c.journal ++ .sent first :: .signal s :: since ∧ Reports since hash ∧
      d.association = .unknown := by
  rw [getDatabaseHash_eq] at hg
  rcases hr : roundTrip .getDatabaseHash [] triggerUnlock c with ⟨body, b⟩ | ⟨e, b⟩ <;>
    simp only [hr] at hg
  · rcases ht : requireText body "hash" with e | reported <;> simp only [ht] at hg <;> cases hg
    obtain ⟨first, since, reply, hj, hmem, haction, hnone, -⟩ := roundTrip_eq_ok_of_holds h hr
    refine ⟨first, since, hj, ⟨reply, body, hmem, haction, ht⟩, ?_⟩
    simp only [hnone, reduceCtorEq, if_false]
  · cases hg

/-- The hash of the current database is known, or told since the signal. -/
theorem currentDatabase_eq_ok_of_holds (h : c.link.Holds s) (hc : currentDatabase c = .ok hash d) :
    d = c ∧ c.databaseHash = some hash ∨
      c.databaseHash = none ∧ d.association = .unknown ∧
        ∃ first since, d.journal = c.journal ++ .sent first :: .signal s :: since ∧
          Reports since hash := by
  rw [currentDatabase_eq] at hc
  rcases hh : c.databaseHash with _ | known <;> rw [hh] at hc
  · obtain ⟨first, since, hj, hreports, hunknown⟩ := getDatabaseHash_eq_ok_of_holds h hc
    exact .inr ⟨rfl, hunknown, first, since, hj, hreports⟩
  · cases hc
    exact .inl ⟨rfl, rfl⟩

/-- A record that is found valid was accepted by a reply. -/
theorem exists_accepts_of_valid (ht : testAssociate record c = .ok .valid d) :
    ∃ notes, d.journal = c.journal ++ notes ∧ Accepts notes record := by
  obtain ⟨body, answered, hr, hv, rfl⟩ := testAssociate_eq_valid ht
  obtain ⟨message, signals, htrip⟩ :=
    exists_trip_roundTrip .testAssociate (checkFields record) false c
  rw [hr] at htrip
  obtain ⟨reply, hpass⟩ := htrip
  exact ⟨_, hpass.journal_eq, reply, body, by simp [passage, answerNotes],
    hpass.reply_action _ rfl, hv⟩

theorem exists_accepts_of_holds (h : c.link.Holds s) (ht : testAssociate record c = .ok .valid d) :
    ∃ first since, d.journal = c.journal ++ .sent first :: .signal s :: since ∧
      Accepts since record := by
  obtain ⟨body, answered, hr, hv, rfl⟩ := testAssociate_eq_valid ht
  obtain ⟨first, since, reply, hj, hmem, haction, -⟩ := roundTrip_eq_ok_of_holds h hr
  exact ⟨first, since, hj, reply, body, hmem, haction, hv⟩

/-! ## What passes first -/

/-- From `c` to `d` a message was written, and next a signal was taken. -/
def Taken (s : Signal) (c d : Client σ) : Prop :=
  ∃ first since, d.journal = c.journal ++ .sent first :: .signal s :: since

/-- From `c` to `d`, a signal was taken as soon as the client waited for a reply, and not before. -/
def Meets (s : Signal) (c d : Client σ) : Prop :=
  ∃ notes, d.journal = c.journal ++ notes ∧ TakesNext s c.link d.link notes

theorem Taken.trans (h : Taken s c b) (hj : ∃ notes, d.journal = b.journal ++ notes) :
    Taken s c d := by
  obtain ⟨first, since, hb⟩ := h
  obtain ⟨notes, hd⟩ := hj
  refine ⟨first, since ++ notes, ?_⟩
  rw [hd, hb, List.append_assoc]
  rfl

theorem Taken.meets (h : Taken s c d) : Meets s c d := by
  obtain ⟨first, since, hj⟩ := h
  exact ⟨_, hj, .taken first since⟩

theorem Asks.exists_notes {m : Run σ α} (h : c.Asks action m) :
    ∃ notes, (after m c).journal = c.journal ++ notes := by
  obtain ⟨fields, triggerUnlock, haside, -⟩ := h
  obtain ⟨message, signals, htrip⟩ := exists_trip_roundTrip action fields triggerUnlock c
  obtain ⟨answer, hpass, -⟩ := exists_passes_of_trip htrip
  exact ⟨_, haside.journal_eq.trans hpass.journal_eq⟩

namespace Meets

theorem of_aside (h : Aside c d) : Meets s c d :=
  ⟨[], h.journal_eq.trans (List.append_nil _).symm, .nothing (h.link_eq ▸ .refl _)⟩

theorem aside (h : Meets s c b) (ha : Aside b d) : Meets s c d := by
  obtain ⟨notes, hj, hn⟩ := h
  exact ⟨notes, ha.journal_eq.trans hj, ha.link_eq ▸ hn⟩

theorem roundTrip (h : c.link.Holds s) (action : Action) (fields : Json.Members)
    (triggerUnlock : Bool) : Meets s c (after (roundTrip action fields triggerUnlock) c) := by
  obtain ⟨message, signals, htrip, hs⟩ := exists_trip_of_holds h action fields triggerUnlock
  obtain ⟨answer, hpass, hunanswered⟩ := exists_passes_of_trip htrip
  refine ⟨_, hpass.journal_eq, ?_⟩
  rcases hs with ⟨first, more, rfl, rfl⟩ | ⟨rfl, e, d, hr, hu⟩
  · exact .taken first _
  · rw [hunanswered e d hr, after_of_error hr]
    cases message with
    | none => exact .nothing hu
    | some first => exact .unheard first hu

theorem of_asks {m : Run σ α} (hm : c.Asks action m) (h : c.link.Holds s) : Meets s c (after m c) := by
  obtain ⟨fields, triggerUnlock, haside, -⟩ := hm
  exact (roundTrip h action fields triggerUnlock).aside haside

theorem testAssociate (h : c.link.Holds s) (record : Association) :
    Meets s c (after (testAssociate record) c) := by
  rcases hp : c.session.requirePeer with e | peer
  · rw [after_of_error (by rw [testAssociate_eq, hp])]
    exact .of_aside (.refl c)
  · exact .of_asks (Asks.testAssociate hp record) h

theorem currentDatabase (h : c.link.Holds s) : Meets s c (after currentDatabase c) := by
  rw [after, currentDatabase_eq]
  cases c.databaseHash with
  | some => exact .of_aside (.refl c)
  | none => exact .of_asks (Asks.getDatabaseHash _ c) h

end Meets

section Calls

variable [AssociationStore σ]

/-- A client makes sure of the association over a link that holds a signal without asking, or by a check
since the signal. -/
theorem ensureAssociated_eq_ok_of_holds (h : c.link.Holds s)
    (he : ensureAssociated c = .ok record d) :
    d = c ∧ StandsFor c record ∨
      (∀ other, ¬ StandsFor c other) ∧ ∃ past, d.journal = c.journal ++ past ∧ Rechecked c s past := by
  obtain ⟨hash, b, hcurrent, hl, hb⟩ := ensureAssociated_eq_ok he
  rcases currentDatabase_eq_ok_of_holds h hcurrent with
    ⟨rfl, hh⟩ | ⟨hh, hunknown, first, since, hj, told, members, hmem, htold⟩
  · rcases hb with ⟨hv, rfl⟩ | ⟨hv, d', ht, rfl⟩
    · left
      obtain rfl := Registry.databaseId_of_lookup hl
      exact ⟨rfl, hv, hh, hl⟩
    · right
      refine ⟨fun other hs => hv hs.validated, ?_⟩
      obtain ⟨first, since, hj, haccepts⟩ := exists_accepts_of_holds h ht
      exact ⟨_, hj, first, since, hash, record, rfl, .inl hh, hl, haccepts⟩
  · right
    refine ⟨fun other hs => (by cases hh.symm.trans hs.databaseHash_eq), ?_⟩
    have hkept := registry_after_currentDatabase c
    rw [after_of_ok hcurrent] at hkept
    obtain ⟨-, d', ht, rfl⟩ := hb.resolve_left fun hv => (by cases hunknown.symm.trans hv.1)
    obtain ⟨notes, hj', reply, body, hmem', haccepts⟩ := exists_accepts_of_valid ht
    refine ⟨.sent first :: .signal s :: (since ++ notes), ?_, first, since ++ notes, hash, record, rfl,
      .inr ⟨hh, told, members, List.mem_append_left _ hmem, htold⟩, hkept ▸ hl, reply, body,
      List.mem_append_right _ hmem', haccepts⟩
    show d'.journal = _
    rw [hj', hj, List.append_assoc]
    rfl

/-- What passes first while a client makes sure of the association. -/
theorem Meets.ensureAssociated (h : c.link.Holds s) : Meets s c (after ensureAssociated c) := by
  rcases aside_ensureAssociated c with haside | haside | ⟨hash, d, record, hc, haside⟩
  · exact .of_aside haside
  · exact (Meets.currentDatabase h).aside haside
  · refine .aside ?_ haside
    rcases currentDatabase_eq_ok_of_holds h hc with ⟨rfl, -⟩ | ⟨-, -, first, since, htaken, -⟩
    · exact .testAssociate h record
    · obtain ⟨notes, hj, -⟩ := Defers.testAssociate record d
      exact (Taken.trans ⟨first, since, htaken⟩ ⟨notes, hj⟩).meets

/-! ## Operations -/

/-- A privileged request stands in its own exchange, after all notes without one. -/
theorem eq_of_append_passage {past future notes : List Note} {message : Option Outbound}
    {signals : List Signal} {answer : Option (BoxedReply × Json.Members)}
    (hn : ∀ m, .sent m ∈ notes → m.action.requiresAssociation = false)
    (h : notes ++ passage message signals answer = past ++ .sent m :: future)
    (ha : m.action.requiresAssociation = true) : past = notes := by
  have hmem : .sent m ∉ notes := fun hs => Bool.false_ne_true ((hn m hs).symm.trans ha)
  obtain ⟨before, rfl⟩ : ∃ before, past = notes ++ before := by
    rcases List.append_eq_append_iff.1 h with ⟨before, rfl, -⟩ | ⟨later, hnotes, hlater⟩
    · exact ⟨before, rfl⟩
    · cases later with
      | nil => exact ⟨[], by rw [hnotes, List.append_nil, List.append_nil]⟩
      | cons note later =>
        obtain ⟨rfl, -⟩ := List.cons.inj hlater
        exact absurd (by rw [hnotes]; simp) hmem
  rw [List.append_assoc] at h
  obtain ⟨rfl, -⟩ := passage_eq_append_sent (List.append_cancel_left h)
  exact List.append_nil _

/-- A privileged request that a call writes comes right after making sure of the association. -/
theorem exists_ensureAssociated_of_privileged {operation : Operation} {past future : List Note}
    (he : operation.ensures = true)
    (hj : (perform operation c).journal = c.journal ++ (past ++ .sent m :: future))
    (ha : m.action.requiresAssociation = true) :
    ∃ record d, ensureAssociated c = .ok record d ∧ d.journal = c.journal ++ past := by
  have hensure := Defers.ensureAssociated c
  have hlater (hc : perform operation c = after ensureAssociated c) : False := by
    obtain ⟨early, hearly, hn⟩ := hensure
    rw [← hc, hj] at hearly
    have hfalse := hn m (by rw [← List.append_cancel_left hearly]; simp)
    exact Bool.false_ne_true (hfalse.symm.trans ha)
  by_cases hne : operation = .ensureAssociated
  · subst hne
    exact (hlater rfl).elim
  obtain ⟨action, f, -, hcall, hasks⟩ := ensuresThenAsks_call (σ := σ) he hne
  rw [← after_call, hcall] at hlater hj
  rcases hc : ensureAssociated c with ⟨record, d⟩ | ⟨e, d⟩
  · obtain ⟨early, hearly, hn⟩ := after_of_ok hc ▸ hensure
    obtain ⟨fields, triggerUnlock, haside, -⟩ := hasks record d
    obtain ⟨message, signals, htrip⟩ := exists_trip_roundTrip action fields triggerUnlock d
    obtain ⟨answer, hpass, -⟩ := exists_passes_of_trip htrip
    rw [after_bind_of_ok hc, haside.journal_eq, hpass.journal_eq, hearly, List.append_assoc] at hj
    obtain rfl := eq_of_append_passage hn (List.append_cancel_left hj) ha
    exact ⟨record, d, rfl, hearly⟩
  · rw [after_bind_of_error hc] at hlater
    exact (hlater (after_of_error hc).symm).elim

/-- What passes first in a call over a link that holds a signal. -/
theorem meets_perform {operation : Operation} (h : c.link.Holds s) (he : operation.ensures = true) :
    Meets s c (perform operation c) := by
  by_cases hne : operation = .ensureAssociated
  · subst hne
    exact .ensureAssociated h
  obtain ⟨action, f, -, hcall, hasks⟩ := ensuresThenAsks_call (σ := σ) he hne
  rw [← after_call, hcall]
  rcases hc : ensureAssociated c with ⟨record, d⟩ | ⟨e, d⟩
  · rw [after_bind_of_ok hc]
    rcases ensureAssociated_eq_ok_of_holds h hc with
      ⟨rfl, -⟩ | ⟨-, past, hj, first, since, -, -, rfl, -⟩
    · exact .of_asks (hasks record d) h
    · exact (Taken.trans ⟨first, since, hj⟩ (hasks record d).exists_notes).meets
  · rw [after_bind_of_error hc, ← after_of_error hc]
    exact .ensureAssociated h

/-- What passes in a call over a link that holds a signal: nothing, or a message and next the signal, and
without the signal nothing is read and no time passes. A client that stands for a record writes the
privileged request before anything else, takes the signal next, if it takes anything, and does not stand
for the record any more then. Any other client writes it only after the record was checked since the
signal. -/
theorem rechecked_of_holds {operation : Operation} (h : c.link.Holds s)
    (he : operation.ensures = true) :
    ∃ notes, Tells c notes (perform operation c) ∧
      TakesNext s c.link (perform operation c).link notes ∧
      ∀ past m future, notes = past ++ .sent m :: future → m.action.requiresAssociation = true →
        ((∀ record, ¬ StandsFor c record) → Rechecked c s past) ∧
        ((∃ record, StandsFor c record) → past = [] ∧ (future = [] ∨
          (perform operation c).association ≠ .validated ∧ ∃ more, future = .signal s :: more)) := by
  obtain ⟨notes, htells⟩ : ∃ notes, Tells c notes (perform operation c) :=
    exists_tells_run [.call operation] c
  obtain ⟨met, hmet, hnext⟩ := meets_perform h he
  obtain rfl := List.append_cancel_left (hmet.symm.trans htells.journal_eq)
  refine ⟨_, htells, hnext, fun past m future hnotes ha => ?_⟩
  subst hnotes
  obtain ⟨record, d, hensure, hpast⟩ := exists_ensureAssociated_of_privileged he hmet ha
  rcases ensureAssociated_eq_ok_of_holds h hensure with ⟨rfl, hstands⟩ | ⟨hnone, early, hj, hchecked⟩
  · obtain rfl : past = [] := List.self_eq_append_right.1 hpast
    refine ⟨fun hnot => absurd hstands (hnot record), fun _ => ⟨rfl, ?_⟩⟩
    rw [List.nil_append] at hmet hnext
    cases hnext with
    | unheard => exact .inl rfl
    | taken _ since =>
      refine .inr ⟨fun hv => ?_, since, rfl⟩
      -- a client that is still validated heard no signal
      obtain ⟨-, -, kept, hkept, hquiet⟩ :=
        (after_of_ok hensure ▸ (perform_of_ensures he _).1).standing hv
      rw [hmet] at hkept
      exact hquiet s (by rw [← List.append_cancel_left hkept]; simp)
  · refine ⟨fun _ => ?_, fun ⟨other, hs⟩ => absurd hs (hnone other)⟩
    rw [hpast] at hj
    exact List.append_cancel_left hj ▸ hchecked

theorem rechecked_of_holds_lagging :
    ∃ (c : Client MemoryStore) (record : Association) (m : Outbound) (future : List Note),
      c.link.Holds .databaseLocked ∧ StandsFor c record ∧
        Tells c (.sent m :: future) (perform (.getTotp "entry") c) ∧
        TakesNext .databaseLocked c.link (perform (.getTotp "entry") c).link (.sent m :: future) ∧
        m.action.requiresAssociation = true ∧ (future = [] ∨
          (perform (.getTotp "entry") c).association ≠ .validated ∧
            ∃ more, future = .signal .databaseLocked :: more) := by
  obtain ⟨moves, peer, c, record, -, hidle, hstands⟩ := exists_lagging_standsFor
  have hensures : (Operation.getTotp "entry").ensures = true := rfl
  obtain ⟨m, future, hsent, hm⟩ := exists_sent_lagging hidle (by decide) hstands hensures nofun
  obtain ⟨notes, htells, hnext, hnotes⟩ := rechecked_of_holds (holds_lagging c) hensures
  obtain rfl : notes = [] ++ .sent m :: future :=
    List.append_cancel_left (htells.journal_eq.symm.trans hsent)
  exact ⟨c.lagging, record, m, future, holds_lagging c, hstands, htells, hnext, hm,
    ((hnotes [] m future rfl hm).2 ⟨record, hstands⟩).2⟩

/-! ## A request that is written too early -/

/-- Among the notes is an accepted reply about an action. -/
def Granted (action : Action) (notes : List Note) : Prop :=
  ∃ reply body, .accepted reply body ∈ notes ∧ reply.action = action

/-- Since a signal, the hash of the database was told and an association accepted. -/
def Renewed (s : Signal) (past : List Note) : Prop :=
  ∃ before since, past = before ++ .signal s :: since ∧ Granted .getDatabaseHash since ∧
    (Granted .testAssociate since ∨ Granted .associate since)

/-- Whatever privileged request a call writes, it writes after the association was renewed since a
signal. -/
def Renews (operation : Operation) (s : Signal) (c : Client σ) : Prop :=
  ∀ past m future, (perform operation c).journal = c.journal ++ (past ++ .sent m :: future) →
    m.action.requiresAssociation = true → Renewed s past

theorem not_renewed_nil (s : Signal) : ¬ Renewed s [] := by
  rintro ⟨before, since, h, -⟩
  exact absurd h (by simp)

/-- An exchange about one action does not renew the association. -/
theorem not_renewed_passage {message : Option Outbound} {signals : List Signal}
    {answer : Option (BoxedReply × Json.Members)} (s : Signal)
    (ha : ∀ told, answer = some told → told.1.action = .testAssociate) :
    ¬ Renewed s (passage message signals answer) := by
  rintro ⟨before, since, h, ⟨reply, body, hmem, hreply⟩, -⟩
  have hnote : .accepted reply body ∈ passage message signals answer := by
    rw [h]
    exact List.mem_append_right _ (List.mem_cons_of_mem _ hmem)
  obtain ⟨told, hsome, hbody⟩ : ∃ told, answer = some told ∧ told = (reply, body) := by
    simpa [passage, answerNotes] using hnote
  cases (hbody ▸ ha told hsome).symm.trans hreply

/-- A signal at hand is not always followed by news of the database and of the association before a
privileged request: neither if the association is taken for validated when the call is made, nor if it
is not. -/
theorem not_forall_renews :
    (¬ ∀ (moves : List (Move MemoryStore)) (clock : Instant) (config : Config)
      (registry : Registry MemoryStore) (entropy : Entropy) (operation : Operation) (s : Signal),
      operation.ensures = true →
      (run moves (new clock config registry entropy)).link.Holds s →
      (run moves (new clock config registry entropy)).association = .validated →
        Renews operation s (run moves (new clock config registry entropy))) ∧
    ¬ ∀ (moves : List (Move MemoryStore)) (clock : Instant) (config : Config)
      (registry : Registry MemoryStore) (entropy : Entropy) (operation : Operation) (s : Signal),
      operation.ensures = true →
      (run moves (new clock config registry entropy)).link.Holds s →
      (run moves (new clock config registry entropy)).association ≠ .validated →
        Renews operation s (run moves (new clock config registry entropy)) := by
  constructor
  · intro h
    obtain ⟨moves, peer, c, record, hrun, hidle, hstands⟩ := exists_lagging_standsFor
    have h := h moves 0 usual ⟨[], {}⟩ (.ofBytes []) (.getTotp "entry") .databaseLocked rfl
    rw [hrun] at h
    obtain ⟨m, future, hsent, hm⟩ := exists_sent_lagging hidle (by decide) hstands
      (show (Operation.getTotp "entry").ensures = true from rfl) nofun
    exact not_renewed_nil _ (h (holds_lagging c) hstands.validated [] m future hsent hm)
  · intro h
    let record : Association := ⟨"database", "name", .ofSecret (.ofNatLE 32 1)⟩
    obtain ⟨moves, peer, c, hrun, hidle, -, hhash, hchecks⟩ := exists_checks record
    have hlookup : c.registry.lookup record.databaseId = some record := (hchecks [] []).lookup_eq
    have hunvalidated : c.association ≠ .validated := (hchecks [] []).unvalidated
    obtain ⟨last, d, reply, body, signals, message, hensure, hidle', hsound, haction, hj⟩ :=
      exists_ensureAssociated_lagging hidle (by decide) hhash hlookup hunvalidated
    have h := h (moves ++ [straggle, .call .nextEvent] ++ [prompt [] last]) 0 usual (.alone record)
      (.ofBytes []) (.getTotp "entry") .databaseLocked rfl
    rw [run_append, run_append, hrun, run_straggle hidle] at h
    have hrenews := h ((holds_lagging c).congr rfl) hunvalidated
    obtain ⟨m, future, hsent, hm⟩ := exists_sent_of_ensureAssociated
      (show (Operation.getTotp "entry").ensures = true from rfl) nofun hensure hidle'.closed_eq
      hidle'.requirePeer_eq (hidle'.position_eq ▸ by decide) hsound.writeFailure?_eq
    rw [hj, List.append_assoc] at hsent
    refine not_renewed_passage .databaseLocked ?_ (hrenews _ m future hsent hm)
    intro told htold
    cases htold
    exact haction

end Calls

end Client

end VaultLink
