import VaultLink.Proofs.Client.Prompting

/-!
# When a record is removed

Making sure of the association removes a record only if the last message that came was the answer to
the check of that very record, without a signal before it, and refused the record (`Refuses`,
`refused_of_removed`). It does so even if the refusal reports another database
(`registry_after_ensureAssociated_of_reported`).
-/

namespace VaultLink.Client

variable {σ : Type} {b c d : Client σ} {hash : String} {record : Association} {peer : PublicKey}
  {request : SealedRequest} {signals : List Signal} {text : String} {body : Json.Members}

/-! ## Refusals -/

/-- The members of the reply to a check refuse the record: by the code of a failed association, or by
the name of another association. -/
inductive Refutes (record : Association) (nonce : Nonce) (body : Json.Members) : Prop
  | disowned : Disowns .testAssociate nonce body → Refutes record nonce body
  | renamed {name : String} : Confirms .testAssociate nonce body → named? body = some name →
    name ≠ record.name → Refutes record nonce body

/-- The text of a message refuses a record that is checked: in the open, by the code of a failed
association, or by the members of a box. -/
inductive Refuses (keys : KeyPair) (peer : PublicKey) (nonce : Nonce) (record : Association)
    (text : String) : Prop
  | plain {failure : Failure} : Inbound.decode text = .ok (.failure failure) →
    failure.action = .testAssociate → failure.code = .associationFailed →
    Refuses keys peer nonce record text
  | boxed {body : Json.Members} : Opens keys peer .testAssociate nonce text body →
    Refutes record nonce body → Refuses keys peer nonce record text

theorem refuses_iff {keys : KeyPair} {nonce : Nonce} :
    Refuses keys peer nonce record text ↔ Estranges keys peer .testAssociate nonce text ∨
      ∃ body, Opens keys peer .testAssociate nonce text body ∧
        Confirms .testAssociate nonce body ∧ Verdict.ofReply record body = .refused := by
  simp only [Verdict.ofReply_eq_refused_iff]
  constructor
  · rintro (⟨hdec, ha, hcode⟩ | ⟨ho, hdisowned | ⟨hconfirms, hname, hne⟩⟩)
    · exact .inl (.plain hdec ha hcode)
    · exact .inl (.boxed ho hdisowned)
    · exact .inr ⟨_, ho, hconfirms, _, hname, hne⟩
  · rintro ((⟨hdec, ha, hcode⟩ | ⟨ho, hdisowned⟩) | ⟨body, ho, hconfirms, name, hname, hne⟩)
    · exact .plain hdec ha hcode
    · exact .boxed ho (.disowned hdisowned)
    · exact .boxed ho (.renamed hconfirms hname hne)

/-- A box opens in one way only. -/
theorem Opens.unique {keys : KeyPair} {action : Action} {nonce : Nonce} {body body' : Json.Members}
    (h : Opens keys peer action nonce text body) (h' : Opens keys peer action nonce text body') :
    body = body' := by
  obtain ⟨box, plaintext, hdec, hbox, hparse⟩ := h
  obtain ⟨box', plaintext', hdec', hbox', hparse'⟩ := h'
  cases hdec.symm.trans hdec'
  cases hbox.symm.trans hbox'
  cases hparse.symm.trans hparse'
  rfl

/-- A box that opens refuses a record by its members. -/
theorem Opens.refuses_iff {keys : KeyPair} {nonce : Nonce}
    (h : Opens keys peer .testAssociate nonce text body) :
    Refuses keys peer nonce record text ↔ Refutes record nonce body := by
  refine ⟨?_, .boxed h⟩
  rintro (⟨hdec, -, -⟩ | ⟨ho, hrefutes⟩)
  · obtain ⟨box, plaintext, hdec', -⟩ := h
    cases hdec.symm.trans hdec'
  · exact h.unique ho ▸ hrefutes

/-! ## Checking a record -/

/-- The message that comes for a check refuses the record exactly if the check comes to that. -/
theorem verdict?_eq_refused_iff (hp : c.session.requirePeer = .ok peer)
    (hr : c.Receives .testAssociate (checkFields record) false request signals text d) :
    verdict? record c = some .refused ↔
      Refuses c.session.keys peer request.replyNonce record text := by
  have hestranges := roundTrip_eq_notAssociated_iff hp (by decide) hr
  have hconfirms (body : Json.Members) :
      (∃ d', roundTrip .testAssociate (checkFields record) false c = .ok body d') ↔
        Opens c.session.keys peer .testAssociate request.replyNonce text body ∧
          Confirms .testAssociate request.replyNonce body := roundTrip_eq_ok_iff hp hr
  rw [refuses_iff, ← hestranges, verdict?, hp]
  simp only [← and_assoc, ← hconfirms]
  rcases roundTrip .testAssociate (checkFields record) false c with ⟨body, d'⟩ | ⟨e, d'⟩
  · simp
  · cases e <;> simp

/-- A record that is refused was asked for, and a message came. -/
theorem exists_receives_of_refused (hv : verdict? record c = some .refused) :
    ∃ peer request signals text d, c.session.requirePeer = .ok peer ∧
      c.Receives .testAssociate (checkFields record) false request signals text d := by
  unfold verdict? at hv
  rcases hp : c.session.requirePeer with e | peer <;> simp only [hp] at hv
  · cases hv
  have hround : ∀ e d, roundTrip .testAssociate (checkFields record) false c = .error e d →
      ∃ cause, e = .notAssociated cause := by
    intro e d he
    rw [he] at hv
    cases e with
    | notAssociated cause => exact ⟨cause, rfl⟩
    | _ => cases hv
  obtain ⟨request, signals, text, d, hr⟩ := exists_receives hround
  exact ⟨peer, request, signals, text, d, rfl, hr⟩

/-- After a check that refused the record, the client knows what it knew when the message came. -/
theorem testAssociate_of_refused (hv : verdict? record c = some .refused)
    (hr : c.Receives .testAssociate (checkFields record) false request signals text d) :
    ∃ journal closed, testAssociate record c = .ok .invalid { d with journal, closed } := by
  obtain ⟨journal, closed, hafter⟩ := after_roundTrip_of_receives hr
  unfold verdict? at hv
  rcases hp : c.session.requirePeer with e | peer <;> simp only [hp] at hv
  · cases hv
  rcases hround : roundTrip .testAssociate (checkFields record) false c with ⟨body, d'⟩ | ⟨e, d'⟩ <;>
    simp only [hround] at hv
  · rw [after_of_ok hround] at hafter
    rw [testAssociate_of_ok hp hround, judgeTest_eq, Option.some.inj hv, hafter]
    exact ⟨journal, closed, rfl⟩
  · rw [after_of_error hround] at hafter
    cases e with
    | notAssociated cause =>
      rw [(testAssociate_of_notAssociated hp hround).2, hafter]
      exact ⟨journal, closed, rfl⟩
    | _ => cases hv

/-! ## Making sure of the association -/

theorem Checks.registry_eq (h : Checks c hash record b) : b.registry = c.registry := by
  rw [← registry_after_currentDatabase c, after_of_ok h.currentDatabase_eq]

/-- Once a signal came, the current database is not known. -/
theorem Hears.signals_eq_nil {known : String} (h : Hears signals c d)
    (hd : d.databaseHash = some known) : signals = [] := by
  obtain ⟨link, nonces, journal, rfl⟩ := h
  cases signals with
  | nil => rfl
  | cons => cases hd

variable [AssociationStore σ]

/-- A client that does not come to check a record removes none. -/
theorem registry_after_ensureAssociated_or (c : Client σ) :
    (after ensureAssociated c).registry = c.registry ∨ ∃ hash record b, Checks c hash record b := by
  have hregistry := registry_after_currentDatabase c
  rw [after, ensureAssociated_eq]
  rcases hp : c.session.requirePeer with e | peer
  · exact .inl rfl
  simp only
  rcases hc : currentDatabase c with ⟨hash, b⟩ | ⟨e, b⟩
  · rw [after_of_ok hc] at hregistry
    simp only
    rcases hl : b.registry.lookup hash with _ | record
    · exact .inl hregistry
    · by_cases hv : b.association = .validated
      · simp only [if_pos hv]
        exact .inl hregistry
      · exact .inr ⟨hash, record, b, ⟨peer, hp⟩, hc, hl, hv⟩
  · rw [after_of_error hc] at hregistry
    exact .inl hregistry

/-- A record that is checked stays, unless it is refused while its database is known to be the current
one. -/
theorem Checks.kept_or (h : Checks c hash record b) :
    (after ensureAssociated c).registry = c.registry ∨
      ∃ d, testAssociate record b = .ok .invalid d ∧ d.databaseHash = some hash ∧
        verdict? record b = some .refused := by
  have hregistry := registry_after_testAssociate record b
  have htest := testAssociate_of_verdict record b
  have hid := Registry.databaseId_of_lookup h.lookup_eq
  rw [← h.registry_eq, ← hregistry, after, h.ensureAssociated_eq]
  rcases hv : verdict? record b with _ | _ | _ | _ <;> rw [hv] at htest
  · obtain ⟨e, d, ht, -⟩ := htest
    rw [ht, after_of_error ht]
    exact .inl rfl
  · obtain ⟨d, ht, -⟩ := htest
    rw [ht, after_of_ok ht]
    exact .inl rfl
  · obtain ⟨d, ht, -, -, hd⟩ := htest
    rw [ht, after_of_ok ht]
    refine .inl ?_
    simp only [reduceCtorEq, if_false, if_neg (hid ▸ hd)]
  · obtain ⟨d, ht, -⟩ := htest
    by_cases hd : d.databaseHash = some hash
    · exact .inr ⟨d, ht, hd, rfl⟩
    · rw [ht, after_of_ok ht]
      refine .inl ?_
      simp only [reduceCtorEq, if_false, if_neg hd]

/-- A record that is refused goes, if the store lets it, unless a signal came before. -/
theorem Checks.ensureAssociated_of_refuses (h : Checks c hash record b)
    (hp : b.session.requirePeer = .ok peer)
    (hr : b.Receives .testAssociate (checkFields record) false request [] text d)
    (hrefuses : Refuses b.session.keys peer request.replyNonce record text) :
    ∃ journal closed, ensureAssociated c =
      match c.registry.evict hash with
      | (.error e, registry) => .error e { d with registry, journal, closed }
      | (.ok _, registry) => .error (.notAssociated (.notAccepted record.name))
          { d with registry, journal, closed, association := .notAssociated } := by
  obtain ⟨journal, closed, ht⟩ :=
    testAssociate_of_refused ((verdict?_eq_refused_iff hp hr).2 hrefuses) hr
  have hregistry := registry_after_testAssociate record b
  rw [after_of_ok ht, h.registry_eq] at hregistry
  have hknown : d.databaseHash = some hash := by
    rw [← databaseHash_of_currentDatabase h.currentDatabase_eq]
    obtain ⟨link, nonces, journal, rfl⟩ := hr.hears
    rfl
  refine ⟨journal, closed, ?_⟩
  rw [h.ensureAssociated_eq, ht, ← hregistry]
  exact (if_neg (by decide)).trans (if_pos hknown)

/-- A record that is gone after making sure of the association was refused, by the last message that
came. -/
theorem exists_refuses_of_removed {id : String} (hl : c.registry.lookup id = some record)
    (hgone : (after ensureAssociated c).registry.lookup id ≠ some record) :
    ∃ b peer request text d, Checks c id record b ∧ b.session.requirePeer = .ok peer ∧
      b.Receives .testAssociate (checkFields record) false request [] text d ∧
      Refuses b.session.keys peer request.replyNonce record text ∧
      ∃ registry journal closed, ensureAssociated c =
        .error (.notAssociated (.notAccepted record.name))
          { d with registry, journal, closed, association := .notAssociated } := by
  rcases registry_after_ensureAssociated_or c with hsame | ⟨hash, checked, b, hc⟩
  · exact absurd (hsame ▸ hl) hgone
  rcases hc.kept_or with hsame | ⟨d', ht, hknown, hv⟩
  · exact absurd (hsame ▸ hl) hgone
  obtain ⟨peer, request, signals, text, d, hp, hr⟩ := exists_receives_of_refused hv
  have hrefuses := (verdict?_eq_refused_iff hp hr).1 hv
  -- the database is still known, so that no signal came
  obtain ⟨journal, closed, htest⟩ := testAssociate_of_refused hv hr
  cases ht.symm.trans htest
  obtain rfl := hr.hears.signals_eq_nil hknown
  obtain ⟨journal, closed, hensure⟩ := hc.ensureAssociated_of_refuses hp hr hrefuses
  rcases hevict : c.registry.evict hash with ⟨e | found, registry⟩ <;>
    simp only [hevict] at hensure <;> rw [after_of_error hensure] at hgone
  · exact absurd ((Registry.lookup_evict_eq_error hevict id).trans hl) hgone
  · have hlookup := Registry.lookup_evict_eq_ok hevict id
    by_cases hid : hash = id
    · subst hid
      have hchecked := hc.lookup_eq
      rw [hc.registry_eq, hl] at hchecked
      cases hchecked
      exact ⟨b, peer, request, text, d, hc, hp, hr, hrefuses, registry, journal, closed, hensure⟩
    · rw [if_neg hid] at hlookup
      exact absurd (hlookup.trans hl) hgone

/-- An operation that makes sure of the association first removes a record only if the check of that
very record was met, without a signal before it, by a message that refuses it. Nothing was read since,
and the operation fails because the client is not associated. -/
theorem refused_of_removed {operation : Operation} {id : String} (he : operation.ensures = true)
    (hl : c.registry.lookup id = some record)
    (hgone : (perform operation c).registry.lookup id ≠ some record) :
    ∃ b peer request text d, Checks c id record b ∧ b.session.requirePeer = .ok peer ∧
      b.Receives .testAssociate (checkFields record) false request [] text d ∧
      Refuses b.session.keys peer request.replyNonce record text ∧
      (perform operation c).link = d.link ∧
      operation.call c =
        .error (.notAssociated (.notAccepted record.name)) (perform operation c) := by
  obtain ⟨hkeeps, herror⟩ := perform_of_ensures he c
  obtain ⟨b, peer, request, text, d, hc, hp, hr, hrefuses, registry, journal, closed, hensure⟩ :=
    exists_refuses_of_removed hl fun h => hgone (hkeeps.lookup_eq ▸ h)
  obtain ⟨f, hcall, -⟩ := ensuresFirst_call (σ := σ) he
  refine ⟨b, peer, request, text, d, hc, hp, hr, hrefuses, ?_, ?_⟩
  · rw [herror _ _ hensure]
  · rw [hcall, bind_of_error hensure, herror _ _ hensure]

/-- A store in memory lets the only record go. -/
theorem evict_alone (record : Association) :
    (Registry.alone record).evict record.databaseId = (.ok true, ⟨[], ⟨[], 1, none⟩⟩) := by
  have hdrop : (Registry.alone record).drop record.databaseId = ⟨[], {}⟩ :=
    Registry.drop_of_changed rfl fun id hne => (Registry.lookup_file record id _).trans (if_neg hne)
  refine Registry.evict_of_ok (Registry.lookup_alone record) ?_
  rw [hdrop]
  rfl

/-- The record of a client that is told, in the open, that it is not associated is removed. -/
theorem refused_of_removed_plain :
    ∃ (c : Client MemoryStore) (record : Association),
      c.registry.lookup record.databaseId = some record ∧
      (perform .ensureAssociated c).registry.lookup record.databaseId ≠ some record ∧
      ∃ b peer request text d, Checks c record.databaseId record b ∧
        b.session.requirePeer = .ok peer ∧
        b.Receives .testAssociate (checkFields record) false request [] text d ∧
        Refuses b.session.keys peer request.replyNonce record text ∧
        (perform .ensureAssociated c).link = d.link ∧
        Operation.ensureAssociated.call c =
          .error (.notAssociated (.notAccepted record.name)) (perform .ensureAssociated c) := by
  let record : Association := ⟨"database", "name", .ofSecret (.ofNatLE 32 1)⟩
  let failure : Failure := ⟨.testAssociate, .associationFailed, "refused"⟩
  obtain ⟨moves, peer, c, -, hidle, hregistry, -, hchecks⟩ := exists_checks record
  obtain ⟨request, text, d, hr, hdec, -⟩ := exists_receives_prompt hidle (by decide) rfl
    (show Json.AreTexts (Inbound.refusalMembers failure "8") from Json.AreTexts.nil.cons.cons.cons)
    (fun _ => Inbound.decode_refusal rfl rfl) rfl (checkFields record) false []
  have hc := hchecks [] (Inbound.refusalMembers failure "8")
  obtain ⟨journal, closed, hensure⟩ := hc.ensureAssociated_of_refuses
    (hidle.prompt _ _).requirePeer_eq hr (.plain hdec rfl rfl)
  have hkept : ((prompt [] (Inbound.refusalMembers failure "8")).apply c).registry = .alone record :=
    hregistry
  rw [hkept, evict_alone] at hensure
  have hlookup := hc.registry_eq ▸ hc.lookup_eq
  refine ⟨_, record, hlookup, ?_, refused_of_removed rfl hlookup ?_⟩
  all_goals
    rw [show perform .ensureAssociated _ = after ensureAssociated _ from rfl, after_of_error hensure]
    exact fun h => by cases h

/-! ## A refusal that reports another database -/

/-- The answer to a check that reports another database than the current one removes the record exactly
if it refuses the record and no signal came before it. Otherwise the record stays, and if the answer
reports success, the client learns that the database changed. -/
theorem registry_after_ensureAssociated_of_reported {other : String} (hc : Checks c hash record b)
    (hp : b.session.requirePeer = .ok peer)
    (hr : b.Receives .testAssociate (checkFields record) false request signals text d)
    (ho : Opens b.session.keys peer .testAssociate request.replyNonce text body)
    (hreported : reported? body = some other) (hne : other ≠ hash) :
    (signals = [] → Refutes record request.replyNonce body →
      (after ensureAssociated c).registry = (c.registry.evict hash).2) ∧
    ((signals = [] → ¬ Refutes record request.replyNonce body) →
      (after ensureAssociated c).registry = c.registry) ∧
    (Confirms .testAssociate request.replyNonce body → ¬ Refutes record request.replyNonce body →
      ∃ d', ensureAssociated c = .error (.notAssociated (.databaseChanged record.name)) d' ∧
        d'.databaseHash = some other) := by
  have hid := Registry.databaseId_of_lookup hc.lookup_eq
  refine ⟨?evicted, ?kept, ?changed⟩
  case evicted =>
    rintro rfl hrefutes
    obtain ⟨journal, closed, hensure⟩ :=
      hc.ensureAssociated_of_refuses hp hr (ho.refuses_iff.2 hrefutes)
    rw [after, hensure]
    rcases c.registry.evict hash with ⟨_ | _, registry⟩ <;> rfl
  case kept =>
    intro hno
    rcases hc.kept_or with hsame | ⟨d', ht, hknown, hv⟩
    · exact hsame
    obtain ⟨journal, closed, htest⟩ := testAssociate_of_refused hv hr
    cases ht.symm.trans htest
    exact absurd (ho.refuses_iff.1 ((verdict?_eq_refused_iff hp hr).1 hv))
      (hno (hr.hears.signals_eq_nil hknown))
  case changed =>
    intro hconfirms hno
    obtain ⟨d', hround⟩ := (roundTrip_eq_ok_iff hp hr).2 ⟨ho, hconfirms⟩
    have hensure := hc.ensureAssociated_eq
    rw [testAssociate_of_ok hp hround, judgeTest_eq] at hensure
    rcases hv : Verdict.ofReply record body with _ | _ | _ <;> rw [hv] at hensure
    · rcases Verdict.reported?_of_accepted hv with hnone | hsame
      · cases hreported.symm.trans hnone
      · cases hreported.symm.trans hsame
        exact absurd hid hne
    · have hchanged : reported? body ≠ some hash := by simpa [hreported] using hne
      simp only [reduceCtorEq, if_false, if_neg hchanged] at hensure
      exact ⟨_, hensure, hreported⟩
    · obtain ⟨name, hname, hdiffers⟩ := Verdict.ofReply_eq_refused_iff.1 hv
      exact absurd (.renamed hconfirms hname hdiffers) hno

/-- A client can come to check a record and be answered by a reply that names another association and
reports another database. -/
theorem exists_refutes_elsewhere :
    ∃ (moves : List (Move MemoryStore)) (clock : Instant) (config : Config)
      (registry : Registry MemoryStore) (entropy : Entropy) (c : Client MemoryStore)
      (record : Association) (peer : PublicKey) (request : SealedRequest) (text : String)
      (body : Json.Members) (d : Client MemoryStore),
      run moves (new clock config registry entropy) = c ∧ c.registry = .alone record ∧
        Checks c record.databaseId record c ∧ c.session.requirePeer = .ok peer ∧
        c.Receives .testAssociate (checkFields record) false request [] text d ∧
        Opens c.session.keys peer .testAssociate request.replyNonce text body ∧
        reported? body = some "other" ∧ "other" ≠ record.databaseId ∧
        Refutes record request.replyNonce body := by
  let record : Association := ⟨"database", "name", .ofSecret (.ofNatLE 32 1)⟩
  let body : Json.Members :=
    [("hash", .string "other"), ("id", .string "other"), ("success", .string "true")]
  obtain ⟨moves, peer, c, hrun, hidle, hregistry, -, hchecks⟩ := exists_checks record
  have hbody : body.Ordered :=
    Table.ordered_of_names (show ["hash", "id", "success"].Pairwise (· < ·) by decide)
  obtain ⟨last, request, text, d, hr, -, hopens, -⟩ := exists_opens_prompt hidle (by decide)
    (show Outbound.sendable .testAssociate = true from rfl) Json.AreTexts.nil.cons.cons.cons hbody
    (checkFields record) false []
  have hprompted : run (moves ++ [prompt [] last]) (new 0 usual (.alone record) (.ofBytes [])) =
      (prompt [] last).apply c := by
    rw [run_append, hrun]
    rfl
  refine ⟨_, 0, usual, .alone record, .ofBytes [], _, record, peer, request, text, body, d,
    hprompted, hregistry, hchecks [] last, (hidle.prompt [] last).requirePeer_eq, hr, hopens, rfl,
    by decide, ?_⟩
  exact .renamed (.of_unnamed rfl rfl rfl _ _) rfl (by decide)

/-- The record of a client that is answered in this way is removed. -/
theorem registry_after_ensureAssociated_of_reported_refuted :
    ∃ (c : Client MemoryStore) (record : Association) (peer : PublicKey) (request : SealedRequest)
      (text : String) (body : Json.Members) (d : Client MemoryStore),
      Checks c record.databaseId record c ∧ c.session.requirePeer = .ok peer ∧
        c.Receives .testAssociate (checkFields record) false request [] text d ∧
        Opens c.session.keys peer .testAssociate request.replyNonce text body ∧
        reported? body = some "other" ∧ "other" ≠ record.databaseId ∧
        (after ensureAssociated c).registry = (c.registry.evict record.databaseId).2 := by
  obtain ⟨moves, clock, config, registry, entropy, c, record, peer, request, text, body, d, -, -, hc,
    hp, hr, ho, hreported, hne, hrefutes⟩ := exists_refutes_elsewhere
  exact ⟨c, record, peer, request, text, body, d, hc, hp, hr, ho, hreported, hne,
    (registry_after_ensureAssociated_of_reported hc hp hr ho hreported hne).1 rfl hrefutes⟩

/-- The record is not always kept when the answer to its check reports another database. -/
theorem not_forall_kept_of_reported :
    ¬ ∀ (moves : List (Move MemoryStore)) (clock : Instant) (config : Config)
      (registry : Registry MemoryStore) (entropy : Entropy) (hash other : String)
      (record : Association) (b : Client MemoryStore) (peer : PublicKey) (request : SealedRequest)
      (signals : List Signal) (text : String) (body : Json.Members) (d : Client MemoryStore),
      Checks (run moves (new clock config registry entropy)) hash record b →
      b.session.requirePeer = .ok peer →
      b.Receives .testAssociate (checkFields record) false request signals text d →
      Opens b.session.keys peer .testAssociate request.replyNonce text body →
      reported? body = some other → other ≠ hash →
      (after ensureAssociated (run moves (new clock config registry entropy))).registry.lookup hash =
        some record := by
  intro h
  obtain ⟨moves, clock, config, registry, entropy, c, record, peer, request, text, body, d, rfl,
    hregistry, hc, hp, hr, ho, hreported, hne, hrefutes⟩ := exists_refutes_elsewhere
  have hkept := h moves clock config registry entropy _ _ record _ peer request [] text body d hc hp
    hr ho hreported hne
  obtain ⟨journal, closed, hensure⟩ :=
    hc.ensureAssociated_of_refuses hp hr (ho.refuses_iff.2 hrefutes)
  rw [hregistry, evict_alone] at hensure
  rw [after_of_error hensure] at hkept
  cases hkept

end VaultLink.Client
