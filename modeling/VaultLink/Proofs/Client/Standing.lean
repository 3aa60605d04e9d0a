import VaultLink.Proofs.Association.Filing
import VaultLink.Proofs.Client.Calls
import VaultLink.Proofs.Client.Replies

/-!
# How the association stands

Round trips, the key exchange and listening keep the registry, and what they leave of a validated
association is what was there before (`Keeps`). Only associating and checking a record can validate it.
Making sure of the association is put together from these (`ensureAssociated_eq`).
-/

namespace VaultLink.Client

variable {σ α : Type} {b c d : Client σ}

/-! ## The registry -/

theorem registry_after_roundTrip (action : Action) (fields : Json.Members) (triggerUnlock : Bool)
    (c : Client σ) : (after (roundTrip action fields triggerUnlock) c).registry = c.registry := by
  rcases ho : c.closed with _ | _
  · rcases hw : submit action fields triggerUnlock c with ⟨request, sent⟩ | ⟨e, d⟩
    · have hsent : sent.registry = c.registry := by rw [(submit_eq_ok hw).client_eq]
      obtain ⟨result, signals, link, ha, -⟩ :=
        awaitReply_cases action (timeoutFor c.config action triggerUnlock) sent
      rw [← hsent, after, roundTrip_of_submit ho hw]
      rcases result with e | inbound
      · rw [closing_of_error (bind_of_error ha _)]
        rfl
      · rcases hset : settle action request inbound (sent.heard signals link) with
          ⟨body, d⟩ | ⟨e, d⟩
        · obtain ⟨reply, -, -, -, rfl⟩ := settle_eq_ok_iff.1 hset
          rw [closing_of_ok ((bind_of_ok ha _).trans hset)]
          rfl
        · rw [closing_of_error ((bind_of_ok ha _).trans hset), settle_eq_error hset]
          rfl
    · rw [after_of_error (roundTrip_of_submit_error ho hw), (submit_eq_error hw).client_eq]
  · rw [roundTrip, after_ensureOpen_of_closed ho]

theorem registry_after_shakeHands (c : Client σ) : (after shakeHands c).registry = c.registry := by
  rcases ho : c.closed with _ | _
  · rcases hk : offerKey c with ⟨⟨⟩, sent⟩ | ⟨e, d⟩
    · obtain ⟨m, hoff, -⟩ := offerKey_eq_ok hk
      obtain ⟨signals, link, session, closed, ha, -⟩ := takeKey_cases sent
      have hafter : after shakeHands c = after takeKey sent := by
        rw [after, shakeHands, bind_of_ok (ensureOpen_of_open ho), bind_of_ok hk]
        rfl
      rw [hafter, ha]
      show sent.registry = c.registry
      rw [hoff.client_eq]
    · obtain ⟨-, -, session, link, closed, hd⟩ := offerKey_eq_error hk
      rw [shakeHands, after_of_error ((bind_of_ok (ensureOpen_of_open ho) _).trans
        (bind_of_error hk _)), hd]
  · rw [shakeHands, after_ensureOpen_of_closed ho]

theorem registry_after_nextEventFrom (fuel : Nat) (c : Client σ) :
    (after (nextEventFrom fuel) c).registry = c.registry := by
  induction fuel generalizing c with
  | zero => rfl
  | succ fuel ih =>
    rcases hr : c.link.receive none with ⟨received, link⟩
    rw [after, nextEventFrom_succ hr]
    cases received with
    | late | never | failed => rfl
    | message text =>
      simp only
      rcases Inbound.decode text with e | inbound
      · rfl
      · cases inbound with
        | signal s => rfl
        | keyExchange | encrypted | failure => exact ih { c with link }

theorem registry_after_nextEvent (c : Client σ) : (after nextEvent c).registry = c.registry := by
  rcases ho : c.closed with _ | _
  · rw [after, nextEvent, bind_of_ok (ensureOpen_of_open ho)]
    exact registry_after_nextEventFrom (c.link.volume + 1) c
  · rw [nextEvent, after_ensureOpen_of_closed ho]

theorem currentDatabase_eq (c : Client σ) :
    currentDatabase c =
      match c.databaseHash with
      | some hash => .ok hash c
      | none => getDatabaseHash c.config.triggerUnlock c := by
  unfold currentDatabase
  rw [bind_of_ok (get_apply c)]
  cases c.databaseHash <;> rfl

theorem registry_after_getDatabaseHash (triggerUnlock : Bool) (c : Client σ) :
    (after (getDatabaseHash triggerUnlock) c).registry = c.registry := by
  have hr := registry_after_roundTrip .getDatabaseHash [] triggerUnlock c
  rw [after, getDatabaseHash_eq]
  rcases hc : roundTrip .getDatabaseHash [] triggerUnlock c with ⟨body, d⟩ | ⟨e, d⟩
  · rw [after_of_ok hc] at hr
    simp only
    rcases requireText body "hash" with e | hash <;> exact hr
  · rw [after_of_error hc] at hr
    exact hr

theorem registry_after_currentDatabase (c : Client σ) :
    (after currentDatabase c).registry = c.registry := by
  rw [after, currentDatabase_eq]
  cases c.databaseHash with
  | some => rfl
  | none => exact registry_after_getDatabaseHash _ c

/-- The current database is known once it was asked for. -/
theorem databaseHash_of_currentDatabase {hash : String} (h : currentDatabase c = .ok hash d) :
    d.databaseHash = some hash := by
  rw [currentDatabase_eq] at h
  rcases hc : c.databaseHash with _ | known <;> simp only [hc] at h
  · rw [getDatabaseHash_eq] at h
    rcases hr : roundTrip .getDatabaseHash [] c.config.triggerUnlock c with ⟨body, b⟩ | ⟨e, b⟩ <;>
      simp only [hr] at h
    · rcases hq : requireText body "hash" with e | reported <;> simp only [hq] at h <;> cases h
      rfl
    · cases h
  · cases h
    exact hc

theorem registry_after_testAssociate (record : Association) (c : Client σ) :
    (after (testAssociate record) c).registry = c.registry := by
  have hr := registry_after_roundTrip .testAssociate (checkFields record) false c
  rw [after, testAssociate_eq]
  rcases c.session.requirePeer with e | _
  · rfl
  simp only
  rcases hc : roundTrip .testAssociate (checkFields record) false c with ⟨body, d⟩ | ⟨e, d⟩
  · rw [after_of_ok hc] at hr
    obtain ⟨outcome, databaseHash, association, hj, -⟩ := judgeTest_cases record body d
    simp only [hj]
    exact hr
  · rw [after_of_error hc] at hr
    cases e <;> exact hr

/-! ## What is kept -/

/-- From `c` to `d` the records stayed, and a validated association is one that was validated for the
same database before, with no signal since. -/
structure Keeps (c d : Client σ) : Prop where
  lookup_eq : d.registry.lookup = c.registry.lookup
  standing : d.association = .validated → c.association = .validated ∧
    d.databaseHash = c.databaseHash ∧
    ∃ notes, d.journal = c.journal ++ notes ∧ ∀ s, .signal s ∉ notes

namespace Keeps

theorem refl (c : Client σ) : Keeps c c :=
  ⟨rfl, fun h => ⟨h, rfl, [], (List.append_nil _).symm, fun _ => List.not_mem_nil⟩⟩

theorem trans (h : Keeps b c) (h' : Keeps c d) : Keeps b d where
  lookup_eq := h'.lookup_eq.trans h.lookup_eq
  standing hv := by
    obtain ⟨hc, hhash, notes, hj, hn⟩ := h'.standing hv
    obtain ⟨hb, hhash', notes', hj', hn'⟩ := h.standing hc
    refine ⟨hb, hhash.trans hhash', notes' ++ notes, ?_, fun s hs => ?_⟩
    · rw [hj, hj', List.append_assoc]
    · rcases List.mem_append.1 hs with hs | hs
      · exact hn' s hs
      · exact hn s hs

/-- A client that is not validated keeps nothing but the records. -/
theorem of_not_validated (hr : d.registry = c.registry) (hv : d.association ≠ .validated) :
    Keeps c d :=
  ⟨by rw [hr], fun h => absurd h hv⟩

theorem of_passes {action : Action} {message : Option Outbound} {signals : List Signal}
    {answer : Option (BoxedReply × Json.Members)} (h : Passes action c message signals answer d)
    (hr : d.registry = c.registry) : Keeps c d where
  lookup_eq := by rw [hr]
  standing hv := by
    obtain ⟨hc, rfl, hhash⟩ := h.of_validated hv
    refine ⟨hc, hhash, _, h.journal_eq, fun s hs => ?_⟩
    cases message <;> cases answer <;> simp [passage, answerNotes] at hs

theorem roundTrip (action : Action) (fields : Json.Members) (triggerUnlock : Bool) (c : Client σ) :
    Keeps c (after (roundTrip action fields triggerUnlock) c) := by
  have hr := registry_after_roundTrip action fields triggerUnlock c
  obtain ⟨message, signals, h⟩ := exists_trip_roundTrip action fields triggerUnlock c
  rcases hc : Client.roundTrip action fields triggerUnlock c with ⟨body, d⟩ | ⟨e, d⟩ <;> rw [hc] at h
  · rw [after_of_ok hc] at hr ⊢
    obtain ⟨reply, h⟩ := h
    exact .of_passes h hr
  · rw [after_of_error hc] at hr ⊢
    exact .of_passes h hr

theorem shakeHands (c : Client σ) : Keeps c (after shakeHands c) := by
  obtain ⟨message, signals, h⟩ := exists_passes_shakeHands c
  exact .of_passes h (registry_after_shakeHands c)

theorem nextEvent (c : Client σ) : Keeps c (after nextEvent c) := by
  obtain ⟨signals, h⟩ := exists_passes_nextEvent .getDatabaseHash c
  exact .of_passes h (registry_after_nextEvent c)

theorem converses {m : Run σ α} (h : Converses m) (c : Client σ) : Keeps c (after m c) :=
  h.related refl trans roundTrip c

/-- The hash that a database is asked for leaves a validated association as it is only if it is the one
that was known. -/
theorem getDatabaseHash (triggerUnlock : Bool) (c : Client σ) :
    Keeps c (after (getDatabaseHash triggerUnlock) c) := by
  have h := roundTrip .getDatabaseHash [] triggerUnlock c
  rcases hc : Client.roundTrip .getDatabaseHash [] triggerUnlock c with ⟨body, d⟩ | ⟨e, d⟩
  · rw [after_of_ok hc] at h
    rw [after, getDatabaseHash_eq, hc]
    simp only
    rcases requireText body "hash" with e | hash
    · exact h
    · refine h.trans ⟨rfl, fun hv => ?_⟩
      simp only at hv ⊢
      split at hv
      · rename_i hhash
        exact ⟨hv, hhash.symm, [], (List.append_nil _).symm, fun _ => List.not_mem_nil⟩
      · cases hv
  · rw [after_of_error hc] at h
    rw [after_of_error (by rw [getDatabaseHash_eq, hc])]
    exact h

theorem currentDatabase (c : Client σ) : Keeps c (after currentDatabase c) := by
  rw [after, currentDatabase_eq]
  cases c.databaseHash with
  | some => exact refl c
  | none => exact getDatabaseHash _ c

theorem lockDatabase (c : Client σ) : Keeps c (after lockDatabase c) := by
  obtain ⟨m, hlock, hm⟩ := exists_lockDatabase_eq (σ := σ)
  rw [hlock]
  exact related_bind (R := Keeps) trans (.converses hm c) fun _ d _ =>
    of_not_validated rfl (by simp [after, forgetDatabase])

end Keeps

/-! ## Checking a record -/

/-- The association that a reply names, if it names one. -/
def named? (body : Json.Members) : Option String := body.get? "id" >>= Json.asString?

/-- The database that a reply reports, if it reports one. -/
def reported? (body : Json.Members) : Option String := body.get? "hash" >>= Json.asString?

/-- What the proxy says of a record. -/
inductive Verdict where
  | accepted
  /-- Accepted, but another database is open. -/
  | elsewhere
  | refused
  deriving DecidableEq

/-- What a reply that reports success says of a record. -/
def Verdict.ofReply (record : Association) (body : Json.Members) : Verdict :=
  if (named? body).all (· = record.name) then
    if (reported? body).all (· = record.databaseId) then accepted else elsewhere
  else refused

theorem Verdict.reported?_of_accepted {record : Association} {body : Json.Members}
    (h : ofReply record body = .accepted) :
    reported? body = none ∨ reported? body = some record.databaseId := by
  unfold ofReply at h
  split at h
  · split at h
    · rename_i hall
      rcases hr : reported? body with _ | hash
      · exact .inl rfl
      · rw [hr] at hall
        exact .inr (congrArg some (of_decide_eq_true hall))
    · cases h
  · cases h

theorem Verdict.reported?_of_elsewhere {record : Association} {body : Json.Members}
    (h : ofReply record body = .elsewhere) : reported? body ≠ some record.databaseId := by
  intro hr
  unfold ofReply at h
  simp only [hr, Option.all_some, decide_true, if_true] at h
  split at h <;> cases h

theorem Verdict.ofReply_eq_refused_iff {record : Association} {body : Json.Members} :
    ofReply record body = .refused ↔ ∃ name, named? body = some name ∧ name ≠ record.name := by
  unfold ofReply
  rcases named? body with _ | name
  · simp only [Option.all_none, if_true]
    split <;> simp
  · simp only [Option.all_some, decide_eq_true_eq, Option.some.injEq, exists_eq_left']
    split
    · rename_i hname
      split <;> simp [hname]
    · rename_i hname
      simp [hname]

/-- A reply that refuses a record leaves what is known of the database. Otherwise the database that it
reports is known afterwards, and the association if it is that of the record. -/
theorem judgeTest_eq (record : Association) (body : Json.Members) (c : Client σ) :
    judgeTest record body c =
      match Verdict.ofReply record body with
      | .refused => .ok .invalid c
      | .elsewhere => .ok .invalid { c with databaseHash := reported? body, association := .unknown }
      | .accepted => .ok .valid { c with
          databaseHash := (reported? body).or c.databaseHash
          association := if (reported? body).or c.databaseHash = some record.databaseId
            then .validated else c.association } := by
  have hj : judgeDatabase record body c =
      match (if (reported? body).all (· = record.databaseId) then Verdict.accepted else .elsewhere) with
      | .refused => .ok .invalid c
      | .elsewhere => .ok .invalid { c with databaseHash := reported? body, association := .unknown }
      | .accepted => .ok .valid { c with
          databaseHash := (reported? body).or c.databaseHash
          association := if (reported? body).or c.databaseHash = some record.databaseId
            then .validated else c.association } := by
    rw [judgeDatabase_eq]
    unfold reported?
    rcases body.get? "hash" >>= Json.asString? with _ | hash
    · simp only [Option.all_none, if_true, Option.none_or]
      by_cases hh : c.databaseHash = some record.databaseId <;> simp only [hh, if_true, if_false]
    · simp only [Option.all_some, decide_eq_true_eq, Option.some_or, Option.some.injEq]
      split <;> rfl
  unfold judgeTest Verdict.ofReply named?
  rcases body.get? "id" >>= Json.asString? with _ | id
  · exact hj
  · simp only [Option.all_some, decide_eq_true_eq, ne_eq, ite_not]
    split
    · exact hj
    · rfl

theorem testAssociate_of_ok {record : Association} {peer : PublicKey} {body : Json.Members}
    (hp : c.session.requirePeer = .ok peer)
    (hr : roundTrip .testAssociate (checkFields record) false c = .ok body d) :
    testAssociate record c = judgeTest record body d := by
  rw [testAssociate_eq, hp]
  simp only [hr]

/-- What the proxy says of a record when it is checked, if it answers. -/
def verdict? (record : Association) (c : Client σ) : Option Verdict :=
  match c.session.requirePeer with
  | .error _ => none
  | .ok _ =>
    match roundTrip .testAssociate (checkFields record) false c with
    | .ok body _ => some (.ofReply record body)
    | .error (.notAssociated _) _ => some .refused
    | .error _ _ => none

/-- A record that is told not to be associated is refused. -/
theorem testAssociate_of_notAssociated {record : Association} {peer : PublicKey} {cause : Estrangement}
    (hp : c.session.requirePeer = .ok peer)
    (hr : roundTrip .testAssociate (checkFields record) false c = .error (.notAssociated cause) d) :
    verdict? record c = some .refused ∧ testAssociate record c = .ok .invalid d := by
  rw [testAssociate_eq, verdict?, hp]
  simp only [hr, and_self]

/-- Checking a record is found valid exactly if the proxy accepts it. Only then it may validate the
association, for the database of the record. -/
theorem testAssociate_of_verdict (record : Association) (c : Client σ) :
    match verdict? record c with
    | none => ∃ e d, testAssociate record c = .error e d ∧ Keeps c d
    | some .refused => ∃ d, testAssociate record c = .ok .invalid d ∧ Keeps c d
    | some .elsewhere => ∃ d, testAssociate record c = .ok .invalid d ∧ Keeps c d ∧
      d.association = .unknown ∧ d.databaseHash ≠ some record.databaseId
    | some .accepted => ∃ d, testAssociate record c = .ok .valid d ∧ (Keeps c d ∨
      d.registry.lookup = c.registry.lookup ∧ d.association = .validated ∧
        d.databaseHash = some record.databaseId) := by
  have hkeep := Keeps.roundTrip .testAssociate (checkFields record) false c
  rw [testAssociate_eq, verdict?]
  rcases c.session.requirePeer with e | _
  · exact ⟨e, c, rfl, .refl c⟩
  simp only
  rcases hr : roundTrip .testAssociate (checkFields record) false c with ⟨body, d⟩ | ⟨e, d⟩
  · rw [after_of_ok hr] at hkeep
    simp only [judgeTest_eq]
    cases hv : Verdict.ofReply record body
    · refine ⟨_, rfl, ?_⟩
      by_cases hh : (reported? body).or d.databaseHash = some record.databaseId
      · exact .inr ⟨hkeep.lookup_eq, if_pos hh, hh⟩
      · rcases Verdict.reported?_of_accepted hv with hn | hs
        · rw [hn, Option.none_or] at hh
          simpa only [hn, Option.none_or, if_neg hh] using Or.inl hkeep
        · exact absurd (by rw [hs]; rfl) hh
    · refine ⟨_, rfl, hkeep.trans (.of_not_validated rfl (by simp)), rfl, ?_⟩
      exact Verdict.reported?_of_elsewhere hv
    · exact ⟨_, rfl, hkeep⟩
  · rw [after_of_error hr] at hkeep
    cases e with
    | notAssociated => exact ⟨d, rfl, hkeep⟩
    | _ => exact ⟨_, d, rfl, hkeep⟩

theorem testAssociate_eq_valid_iff {record : Association} :
    (∃ d, testAssociate record c = .ok .valid d) ↔ verdict? record c = some .accepted := by
  have htest := testAssociate_of_verdict record c
  rcases hv : verdict? record c with _ | _ | _ | _ <;> rw [hv] at htest
  · obtain ⟨e, d, ht, -⟩ := htest
    simp [ht]
  · obtain ⟨d, ht, -⟩ := htest
    simp [ht]
  · obtain ⟨d, ht, -⟩ := htest
    simp [ht]
  · obtain ⟨d, ht, -⟩ := htest
    simp [ht]

/-- A record that is not found valid while its database is left the current one is refused. -/
theorem verdict?_eq_refused {record : Association} {outcome : TestOutcome}
    (h : testAssociate record c = .ok outcome d) (hinvalid : outcome ≠ .valid)
    (hhash : d.databaseHash = some record.databaseId) : verdict? record c = some .refused := by
  have htest := testAssociate_of_verdict record c
  rcases hv : verdict? record c with _ | _ | _ | _ <;> rw [hv] at htest
  · obtain ⟨e, d', ht, -⟩ := htest
    cases h.symm.trans ht
  · obtain ⟨d', ht, -⟩ := htest
    cases h.symm.trans ht
    exact absurd rfl hinvalid
  · obtain ⟨d', ht, -, -, hne⟩ := htest
    cases h.symm.trans ht
    exact absurd hhash hne

/-- A record that is found valid was answered by a reply that accepts it. -/
theorem testAssociate_eq_valid {record : Association} (h : testAssociate record c = .ok .valid d) :
    ∃ body answered, roundTrip .testAssociate (checkFields record) false c = .ok body answered ∧
      Verdict.ofReply record body = .accepted ∧ d = { answered with
        databaseHash := (reported? body).or answered.databaseHash
        association := if (reported? body).or answered.databaseHash = some record.databaseId
          then .validated else answered.association } := by
  rw [testAssociate_eq] at h
  rcases hp : c.session.requirePeer with e | _ <;> simp only [hp] at h
  · cases h
  rcases hr : roundTrip .testAssociate (checkFields record) false c with ⟨body, answered⟩ |
    ⟨e, answered⟩ <;> rw [hr] at h
  · simp only [judgeTest_eq] at h
    cases hv : Verdict.ofReply record body <;> rw [hv] at h <;> cases h
    exact ⟨body, answered, rfl, hv, rfl⟩
  · cases e <;> cases h

/-- A record that the proxy does not accept does not validate the association. -/
theorem keeps_of_verdict_ne {record : Association} (h : verdict? record c ≠ some .accepted) :
    Keeps c (after (testAssociate record) c) := by
  have htest := testAssociate_of_verdict record c
  rcases hv : verdict? record c with _ | _ | _ | _ <;> rw [hv] at htest
  · obtain ⟨e, d, ht, hk⟩ := htest
    exact after_of_error ht ▸ hk
  · exact absurd hv h
  · obtain ⟨d, ht, hk, -⟩ := htest
    exact after_of_ok ht ▸ hk
  · obtain ⟨d, ht, hk⟩ := htest
    exact after_of_ok ht ▸ hk

theorem testAssociation_of_lookup {record : Association} {databaseId : String}
    (h : c.registry.lookup databaseId = some record) :
    testAssociation databaseId c = testAssociate record c := by
  rw [testAssociate_eq]
  simp only [testAssociation, bind_apply, ensureEstablished, get_apply]
  rcases hp : c.session.requirePeer with e | _
  · rfl
  · simp only [ofExcept_ok, pure_apply, h, testAssociate_eq, hp]

theorem after_testAssociation_of_lookup_eq_none {databaseId : String}
    (h : c.registry.lookup databaseId = none) : after (testAssociation databaseId) c = c := by
  simp only [after, testAssociation, bind_apply, ensureEstablished, get_apply]
  rcases c.session.requirePeer with e | _
  · rfl
  · simp only [ofExcept_ok, pure_apply, h]

/-! ## Making sure of the association -/

/-- A client that makes sure of its association comes to check the record of the current database, as
the client `b`. -/
structure Checks (c : Client σ) (hash : String) (record : Association) (b : Client σ) : Prop where
  exists_peer : ∃ peer, c.session.requirePeer = .ok peer
  currentDatabase_eq : currentDatabase c = .ok hash b
  lookup_eq : b.registry.lookup hash = some record
  unvalidated : b.association ≠ .validated

theorem Checks.of_known {peer : PublicKey} {hash : String} {record : Association}
    (hp : c.session.requirePeer = .ok peer) (hh : c.databaseHash = some hash)
    (hl : c.registry.lookup hash = some record) (ha : c.association ≠ .validated) :
    Checks c hash record c :=
  ⟨⟨peer, hp⟩, by rw [Client.currentDatabase_eq, hh], hl, ha⟩

variable [AssociationStore σ]

/-- What checking the record of the current database comes to. -/
theorem ensureAssociated_eq (c : Client σ) :
    ensureAssociated c =
      match c.session.requirePeer with
      | .error e => .error e c
      | .ok _ =>
        match currentDatabase c with
        | .error e d => .error e d
        | .ok hash d =>
          match d.registry.lookup hash with
          | none =>
            .error (.notAssociated (.noRecord hash)) { d with association := .notAssociated }
          | some record =>
            if d.association = .validated then .ok record d
            else
              match testAssociate record d with
              | .error e d => .error e d
              | .ok outcome d =>
                if outcome = .valid then .ok record { d with association := .validated }
                else if d.databaseHash = some hash then
                  match d.registry.evict hash with
                  | (.error e, registry) => .error e { d with registry }
                  | (.ok _, registry) => .error (.notAssociated (.notAccepted record.name))
                      { d with registry, association := .notAssociated }
                else .error (.notAssociated (.databaseChanged record.name)) d := by
  simp only [ensureAssociated, bind_apply, ensureEstablished, get_apply]
  rcases c.session.requirePeer with e | _
  · rfl
  simp only [ofExcept_ok, pure_apply]
  rcases currentDatabase c with ⟨hash, d⟩ | ⟨e, d⟩
  · simp only
    rcases d.registry.lookup hash with _ | record
    · rfl
    · simp only [bind_apply, get_apply]
      split
      · rfl
      · simp only [bind_apply]
        rcases testAssociate record d with ⟨outcome, d⟩ | ⟨e, d⟩
        · cases outcome with
          | valid => rfl
          | invalid | notFound =>
            simp only [bind_apply, get_apply, reduceCtorEq, if_false]
            by_cases hh : d.databaseHash = some hash
            · simp only [hh, ne_eq, not_true_eq_false, if_false, if_true, bind_apply, onRegistry_eq]
              rcases d.registry.evict hash with ⟨_ | _, registry⟩ <;> rfl
            · simp only [hh, ne_eq, not_false_eq_true, if_true, if_false, bind_apply,
                throw_apply]
        · rfl
  · rfl

theorem Checks.ensureAssociated_eq {hash : String} {record : Association}
    (h : Checks c hash record b) :
    ensureAssociated c =
      match testAssociate record b with
      | .error e d => .error e d
      | .ok outcome d =>
        if outcome = .valid then .ok record { d with association := .validated }
        else if d.databaseHash = some hash then
          match d.registry.evict hash with
          | (.error e, registry) => .error e { d with registry }
          | (.ok _, registry) => .error (.notAssociated (.notAccepted record.name))
              { d with registry, association := .notAssociated }
        else .error (.notAssociated (.databaseChanged record.name)) d := by
  obtain ⟨peer, hp⟩ := h.exists_peer
  rw [Client.ensureAssociated_eq, hp]
  simp only [h.currentDatabase_eq, h.lookup_eq, if_neg h.unvalidated]

/-- A record that a client made sure of is the one kept for the current database. It was validated
before, or the proxy was asked and found it valid. -/
theorem ensureAssociated_eq_ok {record : Association} (h : ensureAssociated c = .ok record d) :
    ∃ hash b, currentDatabase c = .ok hash b ∧ b.registry.lookup hash = some record ∧
      (b.association = .validated ∧ d = b ∨
        b.association ≠ .validated ∧ ∃ d', testAssociate record b = .ok .valid d' ∧
          d = { d' with association := .validated }) := by
  rw [ensureAssociated_eq] at h
  rcases hp : c.session.requirePeer with e | _ <;> simp only [hp] at h
  · cases h
  rcases hc : currentDatabase c with ⟨hash, b⟩ | ⟨e, b⟩ <;> simp only [hc] at h
  · rcases hl : b.registry.lookup hash with _ | found <;> simp only [hl] at h
    · cases h
    by_cases hv : b.association = .validated
    · rw [if_pos hv] at h
      cases h
      exact ⟨hash, _, rfl, hl, .inl ⟨hv, rfl⟩⟩
    · rw [if_neg hv] at h
      rcases ht : testAssociate found b with ⟨outcome, d'⟩ | ⟨e, d'⟩ <;> simp only [ht] at h
      · by_cases ho : outcome = .valid
        · rw [if_pos ho] at h
          cases h
          exact ⟨hash, b, rfl, hl, .inr ⟨hv, d', ho ▸ ht, rfl⟩⟩
        · rw [if_neg ho] at h
          split at h
          · split at h <;> cases h
          · cases h
      · cases h
  · cases h

/-- A client that failed to make sure of its association and still takes it for validated did not
come to checking it. -/
theorem unchecked_of_ensureAssociated_eq_error {e : Error} (h : ensureAssociated c = .error e d)
    (hv : d.association = .validated) :
    c.session.requirePeer = .error e ∧ d = c ∨ currentDatabase c = .error e d := by
  rw [ensureAssociated_eq] at h
  rcases hp : c.session.requirePeer with e | _ <;> simp only [hp] at h
  · cases h
    exact .inl ⟨rfl, rfl⟩
  rcases hc : currentDatabase c with ⟨hash, b⟩ | ⟨e, b⟩ <;> simp only [hc] at h
  · rcases hl : b.registry.lookup hash with _ | record <;> simp only [hl] at h
    · cases h
      cases hv
    by_cases hb : b.association = .validated
    · rw [if_pos hb] at h
      cases h
    rw [if_neg hb] at h
    -- a check of the record that does not find it valid does not validate the association
    have hnot : (∀ d, testAssociate record b ≠ .ok .valid d) →
        (after (testAssociate record) b).association ≠ .validated :=
      fun hne hv' => hb ((keeps_of_verdict_ne fun hv =>
        (testAssociate_eq_valid_iff.2 hv).elim hne).standing hv').1
    rcases ht : testAssociate record b with ⟨outcome, d'⟩ | ⟨e, d'⟩ <;> simp only [ht] at h
    · by_cases ho : outcome = .valid
      · rw [if_pos ho] at h
        cases h
      · rw [if_neg ho] at h
        have hd := hnot (by simp [ht, ho])
        rw [after_of_ok ht] at hd
        split at h
        · split at h <;> cases h
          · exact absurd hv hd
          · cases hv
        · cases h
          exact absurd hv hd
    · have hd := hnot (by simp [ht])
      rw [after_of_error ht] at hd
      cases h
      exact absurd hv hd
  · cases h
    exact .inr rfl

theorem keeps_of_ensureAssociated_eq_error {e : Error} (h : ensureAssociated c = .error e d)
    (hv : d.association = .validated) : Keeps c d := by
  rcases unchecked_of_ensureAssociated_eq_error h hv with ⟨-, rfl⟩ | hc
  · exact .refl d
  · exact after_of_error hc ▸ .currentDatabase c

/-- A new record that the store takes is filed and validated. -/
theorem adopt_of_ok {record : Association} {registry : Registry σ}
    (h : c.registry.insert record = (.ok (), registry)) :
    adopt record c = .ok record
      { c with registry, databaseHash := some record.databaseId, association := .validated } := by
  simp only [adopt, bind_apply, onRegistry_eq, h]
  rfl

/-- Associating validates the association with the new record, which is filed, or keeps the
association as it is. -/
theorem associate_keeps_or (c : Client σ) :
    (∃ e d, associate c = .error e d ∧ Keeps c d) ∨
      ∃ record d, associate c = .ok record d ∧ d.association = .validated ∧
        d.databaseHash = some record.databaseId ∧ ∀ id, d.registry.lookup id =
          if record.databaseId = id then some record else c.registry.lookup id := by
  have hkeep := Keeps.roundTrip .associate (associateFields c) false c.afterFreshKey
  rw [associate_eq]
  rcases c.session.requirePeer with e | _
  · exact .inl ⟨e, c, rfl, .refl c⟩
  simp only
  rcases hr : roundTrip .associate (associateFields c) false c.afterFreshKey with
    ⟨body, d⟩ | ⟨e, d⟩
  · rw [after_of_ok hr] at hkeep
    have hd : Keeps c d := ⟨hkeep.lookup_eq, hkeep.standing⟩
    simp only
    rcases requireText body "hash" with e | databaseId
    · exact .inl ⟨e, d, rfl, hd⟩
    rcases requireText body "id" with e | name
    · exact .inl ⟨e, d, rfl, hd⟩
    simp only
    rcases hi : d.registry.insert _ with ⟨e | _, registry⟩
    · exact .inl ⟨e, _, rfl, hd.trans ⟨funext fun id => Registry.lookup_insert_eq_error hi id,
        fun hv => ⟨hv, rfl, [], (List.append_nil _).symm, fun _ => List.not_mem_nil⟩⟩⟩
    · refine .inr ⟨_, _, rfl, rfl, rfl, fun id => ?_⟩
      rw [← hd.lookup_eq]
      exact Registry.lookup_insert_eq_ok hi id
  · rw [after_of_error hr] at hkeep
    exact .inl ⟨_, d, rfl, hkeep.lookup_eq, hkeep.standing⟩

/-! ## Operations -/

/-- The record that a call is about to check on its own, if there is one. -/
def checked? : Operation → Client σ → Option Association
  | .testAssociate record, _ => some record
  | .testAssociation databaseId, c => c.registry.lookup databaseId
  | _, _ => none

theorem perform_of_checked {operation : Operation} {record : Association}
    (h : checked? operation c = some record) :
    perform operation c = after (testAssociate record) c := by
  cases operation with
  | testAssociate => cases h; rfl
  | testAssociation databaseId =>
    have hl : c.registry.lookup databaseId = some record := h
    show after (testAssociation databaseId) c = after (testAssociate record) c
    rw [after, testAssociation_of_lookup hl]
    rfl
  | _ => cases h

/-- An operation that makes sure of the association first does what that does, and then keeps it. -/
theorem perform_of_ensures {operation : Operation} (h : operation.ensures = true) (c : Client σ) :
    Keeps (after ensureAssociated c) (perform operation c) ∧
      ∀ e d, ensureAssociated c = .error e d → perform operation c = d := by
  obtain ⟨f, hf, hconverses⟩ := ensuresFirst_call (σ := σ) h
  rw [← after_call, hf]
  rcases hc : ensureAssociated c with ⟨record, d⟩ | ⟨e, d⟩
  · rw [after_of_ok hc, after, bind_of_ok hc]
    exact ⟨.converses (hconverses record) d, fun _ _ h => by cases h⟩
  · rw [after_of_error hc, after_of_error (bind_of_error hc f)]
    exact ⟨.refl d, fun _ _ h => by cases h; rfl⟩

/-- Other operations keep the association unless they associate or check a record. -/
theorem keeps_perform {operation : Operation} (he : operation.ensures = false)
    (ha : operation ≠ .associate) (hc : checked? operation c = none) :
    Keeps c (perform operation c) := by
  cases operation with
  | shakeHands => exact .shakeHands c
  | nextEvent => exact .nextEvent c
  | getDatabaseHash => exact .getDatabaseHash _ c
  | associate => exact absurd rfl ha
  | testAssociate => cases hc
  | testAssociation databaseId =>
    have hl : c.registry.lookup databaseId = none := hc
    show Keeps c (after (testAssociation databaseId) c)
    rw [after_testAssociation_of_lookup_eq_none hl]
    exact .refl c
  | generatePassword => exact .converses .generatePassword c
  | lockDatabase => exact .lockDatabase c
  | _ => cases he

end VaultLink.Client
