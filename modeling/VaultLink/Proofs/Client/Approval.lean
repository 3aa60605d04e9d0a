import VaultLink.Proofs.Association.Stores
import VaultLink.Proofs.Client.Eviction
import VaultLink.Proofs.Client.Verdicts

/-!
# What an operation changes in the registry

Of all operations only associating adds a record, one that the proxy approved (`Approves`), and only
making sure of the association removes one, that of the current database (`Removes`). Everything else,
a change that the store does not take included, leaves the records and the stored list as they were
(`Registry.Unchanged`, `unchanged_or_perform`).
-/

namespace VaultLink

open AssociationStore (load save)

/-! ## Registries -/

namespace Registry

variable {σ : Type} [AssociationStore σ] {registry registry' : Registry σ} {record : Association}
  {databaseId : String} {e : Error}

/-- The records and the stored list are as they were. -/
structure Unchanged (registry registry' : Registry σ) : Prop where
  records_eq : registry'.records = registry.records
  load_eq : load registry'.store = load registry.store

theorem Unchanged.of_eq (h : registry' = registry) : Unchanged registry registry' :=
  h ▸ ⟨rfl, rfl⟩

/-- The store has taken the records of the second registry. -/
def Saved (registry registry' : Registry σ) : Prop :=
  save (registry'.records.map Association.toStored) registry.store = (.ok (), registry'.store)

theorem saved_of_insert_eq_ok (h : registry.insert record = (.ok (), registry')) :
    Saved registry registry' := by
  have hp := insert_eq_ok h
  rw [Saved, records_of_persist hp]
  exact save_of_persist hp

theorem saved_of_evict_eq_ok {found : Bool} (hl : registry.lookup databaseId = some record)
    (h : registry.evict databaseId = (.ok found, registry')) : Saved registry registry' := by
  have hp := (evict_eq_ok h).resolve_left fun hnone => by cases hl.symm.trans hnone.1
  rw [Saved, records_of_persist hp]
  exact save_of_persist hp

theorem unchanged_of_insert_eq_error [SteadyStore σ]
    (h : registry.insert record = (.error e, registry')) : Unchanged registry registry' := by
  obtain ⟨failed, hp, rfl⟩ := insert_eq_error h
  have hs := save_of_persist hp
  exact ⟨rfl, SteadyStore.load_of_save_eq_error hs⟩

theorem unchanged_of_evict_eq_error [SteadyStore σ]
    (h : registry.evict databaseId = (.error e, registry')) : Unchanged registry registry' := by
  obtain ⟨failed, hp, rfl⟩ := evict_eq_error h
  have hs := save_of_persist hp
  exact ⟨rfl, SteadyStore.load_of_save_eq_error hs⟩

end Registry

namespace Client

variable {σ α : Type} {c d : Client σ} {record : Association} {hash : String} {action : Action}
  {fields body : Json.Members} {triggerUnlock : Bool}

/-! ## What keeps the registry -/

theorem registry_after_converses {m : Run σ α} (h : Converses m) (c : Client σ) :
    (after m c).registry = c.registry :=
  h.related (R := fun c d => d.registry = c.registry) (fun _ => rfl) (fun h h' => h'.trans h)
    registry_after_roundTrip c

theorem registry_after_lockDatabase (c : Client σ) :
    (after lockDatabase c).registry = c.registry := by
  obtain ⟨m, hlock, hm⟩ := exists_lockDatabase_eq (σ := σ)
  rw [hlock]
  exact related_bind (R := fun c d => d.registry = c.registry) (fun h h' => h'.trans h)
    (registry_after_converses hm c) fun _ _ _ => rfl

theorem registry_after_testAssociation (databaseId : String) (c : Client σ) :
    (after (testAssociation databaseId) c).registry = c.registry := by
  rcases hl : c.registry.lookup databaseId with _ | record
  · rw [after_testAssociation_of_lookup_eq_none hl]
  · rw [after, testAssociation_of_lookup hl]
    exact registry_after_testAssociate record c

/-! ## Associating -/

/-- A request goes out in a box for the proxy, with its fields inside. -/
theorem envelope_of_submit {peer : PublicKey} {request : SealedRequest}
    (hp : c.session.requirePeer = .ok peer)
    (h : submit action fields triggerUnlock c = .ok request d) :
    ∃ nonce, request.envelope = .encrypted action
      (Box.encrypt c.session.keys peer nonce
        (Json.render (.object (c.session.payload action nonce fields))))
      nonce c.session.clientId triggerUnlock := by
  rw [submit_eq] at h
  rcases hs : c.session.sealRequest action fields triggerUnlock with ⟨e | sealed, session⟩ <;>
    simp only [hs] at h
  · cases h
  rcases he : sealed.envelope.encode with e | bytes <;> simp only [he] at h
  · cases h
  rcases hl : c.link.send bytes with ⟨_ | _, link⟩ <;> simp only [hl] at h <;> cases h
  unfold Session.sealRequest at hs
  rw [hp] at hs
  rcases hr : c.session.reserve with ⟨e | ⟨nonce, replyNonce⟩, reserved⟩ <;>
    simp only [hr] at hs <;> cases hs
  obtain ⟨-, nonces, rfl⟩ := Session.reserve_eq_ok hr
  exact ⟨nonce, rfl⟩

/-- A round trip that returns members has written its request, and the members are those of the reply
that was accepted. -/
theorem exists_submit_of_roundTrip_eq_ok
    (h : roundTrip action fields triggerUnlock c = .ok body d) :
    ∃ request sent signals reply, submit action fields triggerUnlock c = .ok request sent ∧
      d.journal = c.journal ++ passage (some request.envelope) signals (some (reply, body)) := by
  rcases ho : c.closed with _ | _
  · rcases hw : submit action fields triggerUnlock c with ⟨request, sent⟩ | ⟨e, b⟩
    · have hsub := submit_eq_ok hw
      obtain ⟨bytes, he, hl⟩ := hsub.written
      have hsent : Passes action c (some request.envelope) [] none sent :=
        .of_sent (action_of_submit hw) hsub.reserves he hl hsub.client_eq
      obtain ⟨signals, htrip⟩ := exists_trip_awaitReply hsent hsub.reserves.reply_eq
        (timeoutFor c.config action triggerUnlock)
      rw [← roundTrip_of_submit ho hw, h] at htrip
      obtain ⟨reply, hpasses⟩ := htrip
      exact ⟨request, sent, signals, reply, rfl, hpasses.journal_eq⟩
    · rw [roundTrip_of_submit_error ho hw] at h
      cases h
  · rw [roundTrip, bind_of_error (ensureOpen_of_closed ho)] at h
    cases h

/-- The key under which a client asks to be associated goes out as `idKey`. -/
theorem get?_payload_associateFields (c : Client σ) (nonce : Nonce) :
    (c.session.payload .associate nonce (associateFields c)).get? "idKey" =
      some (.string c.freshKey.publicKey.toBase64) := by
  simp [Session.payload, associateFields, Table.get?_ofList, Table.get?_insert]

theorem get?_of_requireText {name text : String} (h : requireText body name = .ok text) :
    body.get? name = some (.string text) := by
  obtain ⟨value, hget, hvalue⟩ := Option.bind_eq_some_iff.1 (requireText_eq_ok_iff.1 h)
  rw [hget, Json.asString?_eq_some_iff.1 hvalue]

variable [AssociationStore σ]

/-- From `c` to `d`, the client was associated: it filed the record that the reply tells of, with the
reply's `hash` and `id` and with the key that went out as `idKey`. -/
structure Approves (c : Client σ) (record : Association) (d : Client σ) : Prop where
  associate_eq : associate c = .ok record d
  lookup_eq : ∀ id, d.registry.lookup id =
    if record.databaseId = id then some record else c.registry.lookup id
  saved : Registry.Saved c.registry d.registry
  approved : ∃ (peer : PublicKey) (members : Json.Members) (nonce : Nonce) (signals : List Signal)
      (reply : BoxedReply) (body : Json.Members),
    c.session.requirePeer = .ok peer ∧
    d.journal = c.journal ++ passage (some (.encrypted .associate
      (Box.encrypt c.session.keys peer nonce (Json.render (.object members))) nonce c.session.clientId
        false)) signals (some (reply, body)) ∧
    members.get? "idKey" = some (.string record.idKey.publicKey.toBase64) ∧
    body.get? "hash" = some (.string record.databaseId) ∧ body.get? "id" = some (.string record.name)

/-- From `c` to `d`, an operation made sure of the association and failed, and the record of the
current database is gone. -/
structure Removes (operation : Operation) (c : Client σ) (hash : String) (d : Client σ) : Prop where
  ensures : operation.ensures = true
  call_eq : ∃ record, c.registry.lookup hash = some record ∧
    operation.call c = .error (.notAssociated (.notAccepted record.name)) d
  databaseHash_eq : d.databaseHash = some hash
  lookup_eq : ∀ id, d.registry.lookup id = if hash = id then none else c.registry.lookup id
  saved : Registry.Saved c.registry d.registry

theorem approves_of_associate (h : associate c = .ok record d) : Approves c record d := by
  have hassociate := h
  rw [associate_eq] at h
  rcases hp : c.session.requirePeer with e | peer <;> simp only [hp] at h
  · cases h
  rcases hr : roundTrip .associate (associateFields c) false c.afterFreshKey with
    ⟨body, b⟩ | ⟨e, b⟩ <;> simp only [hr] at h
  · rcases hh : requireText body "hash" with e | databaseId <;> simp only [hh] at h
    · cases h
    rcases hn : requireText body "id" with e | name <;> simp only [hn] at h
    · cases h
    have hregistry := registry_after_roundTrip .associate (associateFields c) false c.afterFreshKey
    rw [after_of_ok hr] at hregistry
    have hb : b.registry = c.registry := hregistry
    rcases hi : b.registry.insert ⟨databaseId, name, c.freshKey⟩ with ⟨e | ⟨⟩, registry⟩ <;>
      simp only [hi] at h <;> cases h
    obtain ⟨request, sent, signals, reply, hsubmit, hjournal⟩ := exists_submit_of_roundTrip_eq_ok hr
    obtain ⟨nonce, henvelope⟩ := envelope_of_submit (c := c.afterFreshKey) hp hsubmit
    rw [hb] at hi
    rw [henvelope] at hjournal
    exact ⟨hassociate, Registry.lookup_insert_eq_ok hi, Registry.saved_of_insert_eq_ok hi, peer,
      c.session.payload .associate nonce (associateFields c), nonce, signals, reply, body, hp, hjournal,
      get?_payload_associateFields c nonce, get?_of_requireText hh, get?_of_requireText hn⟩
  · cases h

variable [SteadyStore σ]

/-- Associating without success changes nothing. -/
theorem unchanged_of_associate_error {e : Error} (h : associate c = .error e d) :
    Registry.Unchanged c.registry d.registry := by
  have hregistry := registry_after_roundTrip .associate (associateFields c) false c.afterFreshKey
  rw [associate_eq] at h
  rcases hp : c.session.requirePeer with e | peer <;> simp only [hp] at h
  · cases h
    exact .of_eq rfl
  rcases hr : roundTrip .associate (associateFields c) false c.afterFreshKey with
    ⟨body, b⟩ | ⟨e, b⟩ <;> simp only [hr] at h
  · rw [after_of_ok hr] at hregistry
    have hb : b.registry = c.registry := hregistry
    rcases hh : requireText body "hash" with e | databaseId <;> simp only [hh] at h
    · cases h
      exact .of_eq hb
    rcases hn : requireText body "id" with e | name <;> simp only [hn] at h
    · cases h
      exact .of_eq hb
    rcases hi : b.registry.insert ⟨databaseId, name, c.freshKey⟩ with ⟨e | ⟨⟩, registry⟩ <;>
      simp only [hi] at h <;> cases h
    exact Registry.unchanged_of_insert_eq_error (hb ▸ hi)
  · rw [after_of_error hr] at hregistry
    cases h
    exact .of_eq hregistry

/-! ## Making sure of the association -/

theorem unchanged_or_ensureAssociated (c : Client σ) :
    Registry.Unchanged c.registry (after ensureAssociated c).registry ∨
      ∃ hash record d, c.registry.lookup hash = some record ∧
        ensureAssociated c = .error (.notAssociated (.notAccepted record.name)) d ∧
        d.databaseHash = some hash ∧
        (∀ id, d.registry.lookup id = if hash = id then none else c.registry.lookup id) ∧
        Registry.Saved c.registry d.registry := by
  rcases registry_after_ensureAssociated_or c with hsame | ⟨hash, record, b, hc⟩
  · exact .inl (.of_eq hsame)
  rcases hc.kept_or with hsame | ⟨t, ht, hknown, -⟩
  · exact .inl (.of_eq hsame)
  have hregistry := registry_after_testAssociate record b
  rw [after_of_ok ht, hc.registry_eq] at hregistry
  have hlookup := hc.registry_eq ▸ hc.lookup_eq
  have hensure := hc.ensureAssociated_eq
  rw [ht] at hensure
  simp only [reduceCtorEq, if_false, hknown, if_true, hregistry] at hensure
  rcases hevict : c.registry.evict hash with ⟨e | found, registry⟩ <;> simp only [hevict] at hensure
  · rw [after_of_error hensure]
    exact .inl (Registry.unchanged_of_evict_eq_error hevict)
  · exact .inr ⟨hash, record, _, hlookup, hensure, rfl, Registry.lookup_evict_eq_ok hevict,
      Registry.saved_of_evict_eq_ok hlookup hevict⟩

/-- An operation that makes sure of the association first changes the registry only by that. -/
theorem unchanged_or_removes {operation : Operation} (he : operation.ensures = true) (c : Client σ) :
    Registry.Unchanged c.registry (perform operation c).registry ∨
      ∃ hash, Removes operation c hash (perform operation c) := by
  obtain ⟨f, hcall, hconverses⟩ := ensuresFirst_call (σ := σ) he
  rcases unchanged_or_ensureAssociated c with hsame | ⟨hash, record, d, hl, hc, hknown, hgone, hsaved⟩
  · left
    rw [← after_call, hcall]
    rcases hc : ensureAssociated c with ⟨record, d⟩ | ⟨e, d⟩
    · have hkept := registry_after_converses (hconverses record) d
      rw [after_of_ok hc] at hsame
      rw [after, bind_of_ok hc]
      exact hkept.symm ▸ hsame
    · rw [after_of_error hc] at hsame
      rw [after_of_error (bind_of_error hc f)]
      exact hsame
  · have hfails : operation.call c = .error (.notAssociated (.notAccepted record.name)) d := by
      rw [hcall, bind_of_error hc]
    have hperform : perform operation c = d := (after_call operation c).symm.trans
      (after_of_error hfails)
    rw [hperform]
    exact .inr ⟨hash, he, ⟨record, hl, hfails⟩, hknown, hgone, hsaved⟩

/-! ## Operations -/

/-- A call leaves the records and the stored list as they were, or it is one that associates and files
the record that was approved, or one that makes sure of the association, fails, and removes the record
of the current database. Associating succeeds only in this way. -/
theorem unchanged_or_perform (c : Client σ) :
    (∀ operation, Registry.Unchanged c.registry (perform operation c).registry ∨
      (operation = .associate ∧ ∃ record, Approves c record (perform operation c)) ∨
      ∃ hash, Removes operation c hash (perform operation c)) ∧
    ∀ record d, associate c = .ok record d → Approves c record d := by
  refine ⟨fun operation => ?_, fun record d => approves_of_associate⟩
  by_cases he : operation.ensures = true
  · exact (unchanged_or_removes he c).imp_right .inr
  cases operation with
  | shakeHands => exact .inl (.of_eq (registry_after_shakeHands c))
  | nextEvent => exact .inl (.of_eq (registry_after_nextEvent c))
  | getDatabaseHash => exact .inl (.of_eq (registry_after_getDatabaseHash _ c))
  | testAssociate => exact .inl (.of_eq (registry_after_testAssociate _ c))
  | testAssociation => exact .inl (.of_eq (registry_after_testAssociation _ c))
  | generatePassword => exact .inl (.of_eq (registry_after_converses .generatePassword c))
  | lockDatabase => exact .inl (.of_eq (registry_after_lockDatabase c))
  | associate =>
    show Registry.Unchanged c.registry (after associate c).registry ∨ _
    rcases ha : associate c with ⟨record, d⟩ | ⟨e, d⟩
    · rw [show perform .associate c = d from after_of_ok ha]
      exact .inr (.inl ⟨rfl, record, approves_of_associate ha⟩)
    · rw [after_of_error ha]
      exact .inl (unchanged_of_associate_error ha)
  | _ => exact absurd rfl he

/-- A client without records that is told of an association files it. -/
theorem unchanged_or_perform_associated :
    ∃ (c d : Client MemoryStore) (record : Association),
      c.registry.records = [] ∧ associate c = .ok record d ∧ Approves c record d := by
  obtain ⟨first, peer, b, -, hidle, hregistry, -⟩ :=
    exists_introduced (⟨[], {}⟩ : Registry MemoryStore)
  obtain ⟨second, record, d, hassociate, -⟩ := exists_associate_prompt hidle (by decide) hregistry
  exact ⟨(prompt [] second).apply b, d, record, congrArg Registry.records hregistry, hassociate,
    (unchanged_or_perform _).2 record d hassociate⟩

end Client

end VaultLink
