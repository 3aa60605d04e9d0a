import VaultLink.Proofs.Client.Episodes
import VaultLink.Proofs.Client.Replies

/-!
# The course of an episode

Every episode is one exchange or none, and what it does is said here once (`exists_course`): what
passes over the connection, and what it does to an association. An association is validated after an
episode only if it was accepted in it (`Episode.Vouches`), or if it was validated before and the
episode puts the database not in doubt (`Episode.Calm`).
-/

namespace VaultLink.Client

variable {σ : Type} [AssociationStore σ]

namespace Episode

/-- What an episode adds to the journal. -/
def notes (e : Episode σ) (c : Client σ) : List Note := (e.apply c).journal.drop c.journal.length

/-- The proxy accepted the association in this episode. -/
def Vouches : Episode σ → Client σ → Prop
  | associate, c => ∃ record d, Client.associate c = .ok record d
  | testAssociate record, c => ∃ d, Client.testAssociate record c = .ok .valid d
  | confirm record, c => ∃ d, Client.testAssociate record c = .ok .valid d
  | _, _ => False

/-- No signal is heard, and no reply names another database than the current one. -/
def Calm (e : Episode σ) (c : Client σ) : Prop :=
  (∀ s, .signal s ∉ e.notes c) ∧
  ∀ reply body hash, .accepted reply body ∈ e.notes c → reply.action = .getDatabaseHash →
    requireText body "hash" = .ok hash → c.databaseHash = some hash

/-- What one episode does. -/
structure Course (e : Episode σ) (c : Client σ) (action : Action) (message : Option Outbound)
    (signals : List Signal) (answer : Option (BoxedReply × Json.Members)) : Prop
    extends Conveys action c message signals answer (e.apply c) where
  privileged : action.requiresAssociation = true → e.Fits c → c.association = .validated
  validated : e.Fits c → (e.apply c).association = .validated →
    e.Vouches c ∨ c.association = .validated ∧ e.Calm c
  vouched : e.Vouches c → ∃ reply body, answer = some (reply, body) ∧
    (action = .associate ∨ action = .testAssociate)

variable {e : Episode σ} {c d d' : Client σ} {action : Action} {message : Option Outbound}
  {signals : List Signal} {answer : Option (BoxedReply × Json.Members)}

theorem notes_eq (h : (e.apply c).journal = c.journal ++ passage message signals answer) :
    e.notes c = passage message signals answer := by
  rw [notes, h, List.drop_left]

/-- An exchange without signals is calm if no reply names another database. -/
theorem calm_of_passage (h : (e.apply c).journal = c.journal ++ passage message [] answer)
    (ha : ∀ reply body hash, answer = some (reply, body) → reply.action = .getDatabaseHash →
      requireText body "hash" = .ok hash → c.databaseHash = some hash) : e.Calm c := by
  rw [Calm, notes_eq h]
  refine ⟨fun s hs => ?_, fun reply body hash hr => ha reply body hash ?_⟩
  · cases message <;> cases answer <;> simp [passage, answerNotes] at hs
  · cases message <;> cases answer <;> simp [passage, answerNotes] at hr ⊢ <;>
      exact Prod.ext hr.1.symm hr.2.symm

/-- The course of an episode that is an exchange about an action, after which the client is `d`; what
it then makes of the reply leaves `d'`. -/
theorem Course.of_passes (h : Passes action c message signals answer d) (he : e.apply c = d')
    (hd : Aside d d')
    (hp : action.requiresAssociation = true → e.Fits c → c.association = .validated)
    (hv : e.Fits c → d'.association = .validated → e.Vouches c ∨
      d.association = .validated ∧ (action = .getDatabaseHash → ∀ reply body hash,
        answer = some (reply, body) → requireText body "hash" = .ok hash →
        d.databaseHash = some hash))
    (hvouch : e.Vouches c → ∃ reply body, answer = some (reply, body) ∧
      (action = .associate ∨ action = .testAssociate)) :
    e.Course c action message signals answer := by
  have hconveys : Conveys action c message signals answer (e.apply c) :=
    h.toConveys.aside (he ▸ hd)
  refine ⟨hconveys, hp, fun hf ha => ?_, hvouch⟩
  refine (hv hf (he ▸ ha)).imp_right fun ⟨hval, hq⟩ => ?_
  obtain ⟨hc, rfl, hhash⟩ := h.of_validated hval
  refine ⟨hc, calm_of_passage hconveys.journal_eq fun reply body hash hr haction ht => ?_⟩
  exact hhash ▸ hq ((h.reply_action _ hr).symm.trans haction) reply body hash hr ht

/-- The course of an episode without a reply that was accepted. -/
theorem Course.of_unanswered (h : Passes action c message signals none d) (he : e.apply c = d')
    (hd : Aside d d') (ha : d'.association = .validated → d.association = .validated)
    (hp : action.requiresAssociation = true → e.Fits c → c.association = .validated)
    (hn : ¬ e.Vouches c) : e.Course c action message signals none :=
  .of_passes h he hd hp (fun _ hv => .inr ⟨ha hv, fun _ => nofun⟩) fun h => absurd h hn

theorem exists_course_getDatabaseHash (triggerUnlock : Bool) (c : Client σ) :
    ∃ message signals answer, (getDatabaseHash triggerUnlock : Episode σ).Course c .getDatabaseHash
      message signals answer := by
  obtain ⟨message, signals, h⟩ := exists_trip_roundTrip .getDatabaseHash [] triggerUnlock c
  have heq := getDatabaseHash_eq triggerUnlock c
  rcases hr : roundTrip .getDatabaseHash [] triggerUnlock c with ⟨body, d⟩ | ⟨e, d⟩ <;>
    rw [hr] at h heq
  · obtain ⟨reply, h⟩ := h
    rcases ht : requireText body "hash" with e | hash <;> simp only [ht] at heq
    · refine ⟨message, signals, _, .of_passes h (after_of_error heq) (.refl d)
        (fun h => absurd h (by decide)) (fun _ hv => .inr ⟨hv, ?_⟩) False.elim⟩
      rintro - _ _ hash ⟨⟩ hhash
      cases ht.symm.trans hhash
    · refine ⟨message, signals, _, .of_passes h (after_of_ok heq) ⟨rfl, rfl, rfl, rfl⟩
        (fun h => absurd h (by decide)) (fun _ hv => .inr ?_) False.elim⟩
      by_cases hd : d.databaseHash = some hash
      · refine ⟨(if_pos hd).symm.trans hv, ?_⟩
        rintro - _ _ hash' ⟨⟩ hhash
        cases ht.symm.trans hhash
        exact hd
      · cases (if_neg hd).symm.trans hv
  · exact ⟨message, signals, none, .of_unanswered h (after_of_error heq) (.refl d) id
      (fun h => absurd h (by decide)) id⟩

theorem exists_course_associate (c : Client σ) :
    ∃ message signals answer,
      (associate : Episode σ).Course c .associate message signals answer := by
  have hp : Action.associate.requiresAssociation = true →
      Fits (associate : Episode σ) c → c.association = .validated :=
    fun h => absurd h (by decide)
  obtain ⟨message, signals, answer, d, d', h, hd, hend⟩ := associate_cases c
  refine ⟨message, signals, answer, ?_⟩
  rcases hend with ⟨⟨e, he⟩, ha⟩ | ⟨reply, body, record, hr, hok⟩
  · refine .of_passes h (after_of_error he) hd hp (fun _ hv => .inr ⟨ha ▸ hv, nofun⟩) ?_
    rintro ⟨record, d'', hv⟩
    cases he.symm.trans hv
  · exact .of_passes h (after_of_ok hok) hd hp (fun _ _ => .inl ⟨record, d', hok⟩)
      fun _ => ⟨reply, body, hr, .inl rfl⟩

/-- The course of an episode that checks a record; unless the record is found valid, nothing else is
made of the reply. -/
theorem exists_course_of_test {record : Association}
    (hv : e.Vouches c ↔ ∃ d, Client.testAssociate record c = .ok .valid d)
    (hside : Aside (after (Client.testAssociate record) c) (e.apply c))
    (ha : ¬ e.Vouches c → e.apply c = after (Client.testAssociate record) c) :
    ∃ message signals answer, e.Course c .testAssociate message signals answer := by
  obtain ⟨message, signals, answer, d, d', h, hd, hafter, hend⟩ := testAssociate_cases record c
  have hp : Action.testAssociate.requiresAssociation = true → e.Fits c → c.association = .validated :=
    fun h => absurd h (by decide)
  rw [hafter] at hside ha
  refine ⟨message, signals, answer, ?_⟩
  rcases hend with ⟨hok, reply, body, hr⟩ | ⟨hno, hval⟩
  · exact .of_passes h rfl (hd.trans hside) hp (fun _ _ => .inl (hv.2 ⟨d', hok⟩))
      fun _ => ⟨reply, body, hr, .inr rfl⟩
  · have hvouch : ¬ e.Vouches c := fun hvouch => (hv.1 hvouch).elim hno
    exact .of_passes h (ha hvouch) hd hp (fun _ hd' => .inr ⟨hval hd', nofun⟩)
      fun h => absurd h hvouch

theorem exists_course_confirm (record : Association) (c : Client σ) :
    ∃ message signals answer,
      (confirm record : Episode σ).Course c .testAssociate message signals answer := by
  rcases h : Client.testAssociate record c with ⟨outcome, d⟩ | ⟨e, d⟩
  · have ha : (confirm record).apply c =
        if outcome = .valid then { d with association := .validated } else d :=
      after_confirm_of_ok h
    refine exists_course_of_test Iff.rfl ?_ fun hvouch => ?_
    · rw [ha, after_of_ok h]
      split <;> exact ⟨rfl, rfl, rfl, rfl⟩
    · have ho : outcome ≠ .valid := fun ho => hvouch ⟨d, ho ▸ h⟩
      rw [ha, after_of_ok h, if_neg ho]
  · have ha : (confirm record).apply c = after (Client.testAssociate record) c :=
      (after_confirm_of_error h).trans (after_of_error h).symm
    exact exists_course_of_test Iff.rfl (ha ▸ .refl _) fun _ => ha

/-- The course of an episode in which nothing passes and no association is validated. -/
theorem course_of_aside (h : Aside c (e.apply c))
    (ha : (e.apply c).association = .validated → c.association = .validated) (hn : ¬ e.Vouches c) :
    e.Course c .changePublicKeys none [] none :=
  .of_unanswered (.silent _ c) rfl h ha (fun h => absurd h (by decide)) hn

theorem exists_course (e : Episode σ) (c : Client σ) :
    ∃ action message signals answer, e.Course c action message signals answer := by
  cases e with
  | shakeHands =>
    obtain ⟨message, signals, h⟩ := exists_passes_shakeHands c
    exact ⟨_, message, signals, none,
      .of_unanswered h rfl (.refl _) id (fun h => absurd h (by decide)) id⟩
  | nextEvent =>
    obtain ⟨signals, h⟩ := exists_passes_nextEvent .changePublicKeys c
    exact ⟨_, none, signals, none,
      .of_unanswered h rfl (.refl _) id (fun h => absurd h (by decide)) id⟩
  | getDatabaseHash triggerUnlock => exact ⟨_, exists_course_getDatabaseHash triggerUnlock c⟩
  | associate => exact ⟨_, exists_course_associate c⟩
  | testAssociate record =>
    have ha : (testAssociate record).apply c = after (Client.testAssociate record) c := rfl
    exact ⟨_, exists_course_of_test Iff.rfl (ha ▸ .refl _) fun _ => ha⟩
  | confirm record => exact ⟨_, exists_course_confirm record c⟩
  | exchange action fields triggerUnlock =>
    obtain ⟨message, signals, h⟩ := exists_trip_roundTrip action fields triggerUnlock c
    rcases hr : roundTrip action fields triggerUnlock c with ⟨body, d⟩ | ⟨e, d⟩ <;> rw [hr] at h
    · obtain ⟨reply, h⟩ := h
      exact ⟨action, message, signals, _, .of_passes h (after_of_ok hr) (.refl d)
        (fun hr hf => hf.2 hr) (fun hf hv => .inr ⟨hv, fun hd => absurd hd hf.1⟩) False.elim⟩
    · exact ⟨action, message, signals, none, .of_unanswered h (after_of_error hr) (.refl d) id
        (fun hr hf => hf.2 hr) id⟩
  | forget | disown =>
    exact ⟨_, none, [], none, course_of_aside ⟨rfl, rfl, rfl, rfl⟩ nofun id⟩
  | share => exact ⟨_, none, [], none, course_of_aside ⟨rfl, rfl, rfl, rfl⟩ id id⟩
  | proxy arrivals clock writeFault answers =>
    have h : Passes .changePublicKeys c none [] none
        ((proxy arrivals clock writeFault answers).apply c) :=
      (Passes.silent _ c).congr rfl rfl rfl rfl rfl
    exact ⟨_, none, [], none,
      .of_unanswered h rfl (.refl _) id (fun h => absurd h (by decide)) id⟩

end Episode

end VaultLink.Client
