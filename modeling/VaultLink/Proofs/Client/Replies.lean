import VaultLink.Client.Association
import VaultLink.Proofs.Client.Passage

/-!
# What replies say of the database

Asking for the database's hash, checking a record and associating are one exchange each, and go on
from it with what the reply says (`getDatabaseHash_eq`, `testAssociate_eq`, `associate_eq`). A record is
found valid, and a new one kept, only if a reply was accepted; otherwise the association is validated
afterwards only if it was before (`testAssociate_cases`, `associate_cases`).
-/

namespace VaultLink.Client

variable {σ : Type}

theorem getDatabaseHash_eq (triggerUnlock : Bool) (c : Client σ) :
    getDatabaseHash triggerUnlock c =
      match roundTrip .getDatabaseHash [] triggerUnlock c with
      | .error e d => .error e d
      | .ok body d =>
        match requireText body "hash" with
        | .error e => .error e d
        | .ok hash => .ok hash { d with
            databaseHash := some hash
            association := if d.databaseHash = some hash then d.association else .unknown } := by
  simp only [getDatabaseHash, bind_apply]
  rcases roundTrip .getDatabaseHash [] triggerUnlock c with ⟨body, d⟩ | ⟨e, d⟩
  · simp only
    rcases requireText body "hash" with e | hash <;> rfl
  · rfl

theorem judgeDatabase_eq (record : Association) (body : Json.Members) (c : Client σ) :
    judgeDatabase record body c =
      match body.get? "hash" >>= Json.asString? with
      | some hash =>
        if hash = record.databaseId then
          .ok .valid { c with databaseHash := some hash, association := .validated }
        else .ok .invalid { c with databaseHash := some hash, association := .unknown }
      | none =>
        .ok .valid (if c.databaseHash = some record.databaseId then
          { c with association := .validated } else c) := by
  unfold judgeDatabase
  simp only
  rcases body.get? "hash" >>= Json.asString? with _ | hash
  · simp only [bind_apply, get_apply]
    split <;> rfl
  · simp only [bind_apply, modify_apply]
    by_cases hh : hash = record.databaseId
    · simp only [hh, ne_eq, not_true_eq_false, if_false, if_true, bind_apply, pure_apply, get_apply,
        modify_apply]
    · simp only [hh, ne_eq, not_false_eq_true, if_true, if_false, bind_apply, pure_apply,
        modify_apply]

/-- By the database that the reply reports, a record is found valid or the association is unknown. -/
theorem judgeDatabase_cases (record : Association) (body : Json.Members) (c : Client σ) :
    ∃ outcome databaseHash association,
      judgeDatabase record body c = .ok outcome { c with databaseHash, association } ∧
      (outcome = .valid ∨ association = .unknown) := by
  rw [judgeDatabase_eq]
  rcases body.get? "hash" >>= Json.asString? with _ | hash
  · simp only
    split
    · exact ⟨.valid, c.databaseHash, .validated, rfl, .inl rfl⟩
    · exact ⟨.valid, c.databaseHash, c.association, rfl, .inl rfl⟩
  · simp only
    split
    · exact ⟨.valid, some hash, .validated, rfl, .inl rfl⟩
    · exact ⟨.invalid, some hash, .unknown, rfl, .inr rfl⟩

/-- The reply to a check of a record validates it, or leaves what is known of the association, or
makes it unknown. -/
theorem judgeTest_cases (record : Association) (body : Json.Members) (c : Client σ) :
    ∃ outcome databaseHash association,
      judgeTest record body c = .ok outcome { c with databaseHash, association } ∧
      (outcome = .valid ∨ association = .unknown ∨
        databaseHash = c.databaseHash ∧ association = c.association) := by
  obtain ⟨outcome, databaseHash, association, hj, ho⟩ := judgeDatabase_cases record body c
  unfold judgeTest
  rcases body.get? "id" >>= Json.asString? with _ | id
  · exact ⟨_, _, _, hj, ho.imp_right .inl⟩
  · simp only
    split
    · exact ⟨.invalid, c.databaseHash, c.association, rfl, .inr (.inr ⟨rfl, rfl⟩)⟩
    · exact ⟨_, _, _, hj, ho.imp_right .inl⟩

/-- The members by which a record is checked. -/
def checkFields (record : Association) : Json.Members :=
  Json.Members.ofList
    [("id", .string record.name), ("key", .string record.idKey.publicKey.toBase64)]

/-- Asking whether an association is accepted: what the reply says of it, or that it is refused. -/
theorem testAssociate_eq (record : Association) (c : Client σ) :
    testAssociate record c =
      match c.session.requirePeer with
      | .error e => .error e c
      | .ok _ =>
        match roundTrip .testAssociate (checkFields record) false c with
        | .ok body d => judgeTest record body d
        | .error (.notAssociated _) d => .ok .invalid d
        | .error e d => .error e d := by
  simp only [testAssociate, bind_apply, ensureEstablished, get_apply]
  rcases c.session.requirePeer with e | peer
  · rfl
  simp only [ofExcept_ok, pure_apply, checkFields]
  generalize Json.Members.ofList [("id", .string record.name),
    ("key", .string record.idKey.publicKey.toBase64)] = fields
  rcases hr : (roundTrip .testAssociate fields false : Run σ Json.Members) c with ⟨body, d⟩ | ⟨e, d⟩
  · have hmap : (some <$> roundTrip .testAssociate fields false : Run σ (Option Json.Members)) c =
        .ok (some body) d := bind_of_ok hr _
    rw [tryCatch_of_ok hmap]
  · have hmap : (some <$> roundTrip .testAssociate fields false : Run σ (Option Json.Members)) c =
        .error e d := bind_of_error hr _
    rw [tryCatch_of_error hmap]
    cases e <;> rfl

/-- Checking a record is one exchange. A record that is found valid was answered; of any other, the
association is not validated by it. -/
theorem testAssociate_cases (record : Association) (c : Client σ) :
    ∃ message signals answer d d', Passes .testAssociate c message signals answer d ∧ Aside d d' ∧
      after (testAssociate record) c = d' ∧
      (testAssociate record c = .ok .valid d' ∧ (∃ reply body, answer = some (reply, body)) ∨
        (∀ d'', testAssociate record c ≠ .ok .valid d'') ∧
          (d'.association = .validated → d.association = .validated)) := by
  have heq := testAssociate_eq record c
  rcases hpeer : c.session.requirePeer with e | _ <;> simp only [hpeer] at heq
  · exact ⟨none, [], none, c, c, .silent _ c, .refl c, after_of_error heq, .inr ⟨by simp [heq], id⟩⟩
  obtain ⟨message, signals, h⟩ := exists_trip_roundTrip .testAssociate (checkFields record) false c
  rcases hr : roundTrip .testAssociate (checkFields record) false c with ⟨body, d⟩ | ⟨e, d⟩ <;>
    rw [hr] at h heq
  · obtain ⟨reply, h⟩ := h
    obtain ⟨outcome, databaseHash, association, hj, ho⟩ := judgeTest_cases record body d
    simp only [hj] at heq
    refine ⟨message, signals, _, d, { d with databaseHash, association }, h,
      ⟨rfl, rfl, rfl, rfl⟩, after_of_ok heq, ?_⟩
    by_cases hvalid : outcome = .valid
    · exact .inl ⟨hvalid ▸ heq, reply, body, rfl⟩
    · refine .inr ⟨by simp [heq, hvalid], fun hv => ?_⟩
      rcases ho with ho | ho | ⟨-, ho⟩
      · exact absurd ho hvalid
      · cases ho.symm.trans hv
      · exact ho.symm.trans hv
  · refine ⟨message, signals, none, d, d, h, .refl d, ?_⟩
    cases e with
    | notAssociated => exact ⟨after_of_ok heq, .inr ⟨by simp [heq], id⟩⟩
    | _ => exact ⟨after_of_error heq, .inr ⟨by simp [heq], id⟩⟩

/-- The key pair that a client makes next. -/
def freshKey (c : Client σ) : KeyPair := (KeyPair.generate c.entropy).1

/-- The client after it has made that key pair. -/
def afterFreshKey (c : Client σ) : Client σ :=
  { c with entropy := (KeyPair.generate c.entropy).2 }

/-- The members by which a client asks to be associated under its next key. -/
def associateFields (c : Client σ) : Json.Members :=
  Json.Members.ofList
    [("key", .string c.session.keys.publicKey.toBase64),
      ("idKey", .string c.freshKey.publicKey.toBase64)]

/-- Asks for an association under a new key, and makes a record of the answer. -/
def seekApproval : Run σ Association := do
  ensureEstablished
  let (idKey, entropy) := KeyPair.generate (← get).entropy
  modify fun c => { c with entropy }
  let fields := Json.Members.ofList
    [("key", .string (← get).session.keys.publicKey.toBase64),
      ("idKey", .string idKey.publicKey.toBase64)]
  let reply ← tryCatch (roundTrip .associate fields false) fun e => throw (associateError e)
  let databaseId ← ofExcept (requireText reply "hash")
  let name ← ofExcept (requireText reply "id")
  return { databaseId, name, idKey }

theorem seekApproval_eq (c : Client σ) :
    seekApproval c =
      match c.session.requirePeer with
      | .error e => .error e c
      | .ok _ =>
        match roundTrip .associate (associateFields c) false c.afterFreshKey with
        | .error e d => .error (associateError e) d
        | .ok body d =>
          match requireText body "hash", requireText body "id" with
          | .error e, _ | .ok _, .error e => .error e d
          | .ok databaseId, .ok name => .ok { databaseId, name, idKey := c.freshKey } d := by
  simp only [seekApproval, bind_apply, ensureEstablished, get_apply]
  rcases c.session.requirePeer with e | peer
  · rfl
  simp only [ofExcept_ok, pure_apply, modify_apply, associateFields, freshKey, afterFreshKey]
  generalize Json.Members.ofList [("key", .string c.session.keys.publicKey.toBase64),
    ("idKey", .string (KeyPair.generate c.entropy).1.publicKey.toBase64)] = fields
  rcases hr : (roundTrip .associate fields false : Run σ Json.Members)
    { c with entropy := (KeyPair.generate c.entropy).2 } with ⟨body, d⟩ | ⟨e, d⟩
  · rw [tryCatch_of_ok hr]
    simp only
    rcases requireText body "hash" with e | databaseId
    · rfl
    rcases requireText body "id" with e | name <;> rfl
  · rw [tryCatch_of_error hr]
    rfl

/-- An answer that names an association makes a record of it. -/
theorem seekApproval_of_ok {c d : Client σ} {peer : PublicKey} {body : Json.Members}
    {databaseId name : String} (hp : c.session.requirePeer = .ok peer)
    (hr : roundTrip .associate (associateFields c) false c.afterFreshKey = .ok body d)
    (hh : requireText body "hash" = .ok databaseId) (hn : requireText body "id" = .ok name) :
    seekApproval c = .ok ⟨databaseId, name, c.freshKey⟩ d := by
  rw [seekApproval_eq, hp]
  simp only [hr, hh, hn]

variable [AssociationStore σ]

/-- Files a record that was approved. -/
def adopt (record : Association) : Run σ Association := do
  onRegistry (Registry.insert record)
  modify fun c => { c with databaseHash := some record.databaseId, association := .validated }
  return record

/-- Associating is asking for an approval, then filing its record. -/
theorem associate_eq_stages :
    (associate : Run σ Association) = (do
      let record ← seekApproval
      adopt record) := by
  simp only [associate, seekApproval, bind_assoc, pure_bind]
  rfl

/-- Associating: the record that the reply tells of is filed and validated. -/
theorem associate_eq (c : Client σ) :
    associate c =
      match c.session.requirePeer with
      | .error e => .error e c
      | .ok _ =>
        match roundTrip .associate (associateFields c) false c.afterFreshKey with
        | .error e d => .error (associateError e) d
        | .ok body d =>
          match requireText body "hash", requireText body "id" with
          | .error e, _ | .ok _, .error e => .error e d
          | .ok databaseId, .ok name =>
            let record : Association := { databaseId, name, idKey := c.freshKey }
            match d.registry.insert record with
            | (.error e, registry) => .error e { d with registry }
            | (.ok (), registry) =>
              .ok record { d with
                registry, databaseHash := some databaseId, association := .validated } := by
  rw [associate_eq_stages, bind_apply, seekApproval_eq]
  rcases c.session.requirePeer with e | peer
  · rfl
  rcases roundTrip .associate (associateFields c) false c.afterFreshKey with ⟨body, d⟩ | ⟨e, d⟩
  · simp only
    rcases requireText body "hash" with e | databaseId
    · rfl
    rcases requireText body "id" with e | name
    · rfl
    simp only [adopt, bind_apply, onRegistry_eq]
    rcases d.registry.insert _ with ⟨_ | _, registry⟩ <;> rfl
  · rfl

/-- Associating is one exchange: it fails, or the reply that was accepted names the association. -/
theorem associate_cases (c : Client σ) :
    ∃ message signals answer d d', Passes .associate c message signals answer d ∧ Aside d d' ∧
      ((∃ e, associate c = .error e d') ∧ d'.association = d.association ∨
        ∃ reply body record, answer = some (reply, body) ∧ associate c = .ok record d') := by
  rw [associate_eq]
  rcases c.session.requirePeer with e | _
  · exact ⟨none, [], none, c, c, .silent _ c, .refl c, .inl ⟨⟨e, rfl⟩, rfl⟩⟩
  simp only
  obtain ⟨message, signals, h⟩ :=
    exists_trip_roundTrip .associate (associateFields c) false c.afterFreshKey
  rcases hr : roundTrip .associate (associateFields c) false c.afterFreshKey with
    ⟨body, d⟩ | ⟨e, d⟩ <;> rw [hr] at h
  · obtain ⟨reply, h⟩ := h
    refine ⟨message, signals, some (reply, body), d, ?_⟩
    have hd : Passes .associate c message signals (some (reply, body)) d :=
      h.of_start rfl rfl rfl rfl rfl
    simp only
    rcases requireText body "hash" with e | databaseId
    · exact ⟨d, hd, .refl d, .inl ⟨⟨e, rfl⟩, rfl⟩⟩
    rcases requireText body "id" with e | name
    · exact ⟨d, hd, .refl d, .inl ⟨⟨e, rfl⟩, rfl⟩⟩
    simp only
    rcases d.registry.insert _ with ⟨e | _, registry⟩
    · exact ⟨{ d with registry }, hd, ⟨rfl, rfl, rfl, rfl⟩, .inl ⟨⟨e, rfl⟩, rfl⟩⟩
    · exact ⟨{ d with registry, databaseHash := some databaseId, association := .validated }, hd,
        ⟨rfl, rfl, rfl, rfl⟩, .inr ⟨reply, body, _, rfl, rfl⟩⟩
  · exact ⟨message, signals, none, d, d, h.of_start rfl rfl rfl rfl rfl, .refl d,
      .inl ⟨⟨_, rfl⟩, rfl⟩⟩

end VaultLink.Client
