import VaultLink.Proofs.Association.Catalogue
import VaultLink.Proofs.Association.Replacing
import VaultLink.Proofs.Client.Fatality
import VaultLink.Proofs.Client.Submission
import VaultLink.Proofs.Proxy.Classes
import VaultLink.Proofs.Session.Handshake
import VaultLink.Proofs.Session.Opening

/-!
# Texts of keys and nonces

A nonce, a public key and a secret have one text each, and nothing else is read as them. So it makes no
difference whether nonces are compared as texts, as the check of a decrypted reply does, or as bytes,
as opening a box does; and a secret that was saved is loaded with every bit (`canonical_texts`).
-/

namespace VaultLink

/-! ## Reading back -/

theorem Base64.encode_inj {as bs : Bytes} : encode as = encode bs ↔ as = bs := by
  refine ⟨fun h => ?_, congrArg encode⟩
  have hread := decode_encode as
  rw [h, decode_encode] at hread
  cases hread
  rfl

theorem PublicKey.ofBase64_eq_ok_iff {text : String} {key : PublicKey} :
    ofBase64 text = .ok key ↔ text = key.toBase64 := by
  rw [toBase64, ← Base64.decode_eq_ok_iff, ofBase64]
  rcases Base64.decode text with fault | bytes
  · exact iff_of_false nofun nofun
  · simp only [ofBytes_eq_ok_iff, Except.ok.injEq]

/-- Two key pairs with one secret are the same key pair. -/
theorem KeyPair.secret_inj {a b : KeyPair} : a.secret = b.secret ↔ a = b := by
  refine ⟨fun h => ?_, congrArg secret⟩
  rw [a.eq_ofSecret, b.eq_ofSecret, h]

theorem KeyPair.ofSecretBase64_eq_ok_iff {text : String} {keys : KeyPair} :
    ofSecretBase64 text = .ok keys ↔ text = keys.secretBase64 := by
  rw [secretBase64, ← Base64.decode_eq_ok_iff, ofSecretBase64]
  rcases Base64.decode text with fault | bytes
  · simp only [reduceCtorEq]
  · simp only [Except.ok.injEq, ← FixedBytes.ofBytes?_eq_some_iff]
    rcases FixedBytes.ofBytes? 32 bytes with _ | secret
    · simp only [reduceCtorEq]
    · simp only [Except.ok.injEq, Option.some.injEq, ← secret_inj]
      rfl

/-- A record is read from its stored form and from no other one. -/
theorem Association.ofStored_eq_ok_iff {stored : StoredAssociation} {record : Association} :
    ofStored stored = .ok record ↔ stored = record.toStored := by
  refine ⟨fun h => ?_, fun h => h ▸ ofStored_toStored record⟩
  unfold ofStored at h
  split at h
  next keys hkeys =>
    cases h
    rw [toStored, ← KeyPair.ofSecretBase64_eq_ok_iff.1 hkeys]
  next => cases h

/-! ## The nonce inside and the nonce outside -/

/-- A refusal of the proxy is no breach of the protocol. -/
theorem Failure.error_ne_protocol (failure : Failure) (breach : Breach) :
    failure.error ≠ .protocol breach := by
  unfold error
  split
  case h_5 | h_6 => split <;> nofun
  all_goals nofun

namespace Client

theorem refusal_ne_foreignNonce (action : Action) (body : Json.Members) :
    refusal action body ≠ .protocol (.foreignNonce action) := by
  intro h
  unfold refusal at h
  split at h
  · simp only at h
    rcases hparts : Failure.ofParts action (body.get? "errorCode")
      ((body.get? "error" >>= Json.asString?).getD "") with e | failure <;> rw [hparts] at h
    · obtain ⟨cause, rfl⟩ := Failure.failsMalformed_ofParts _ _ _ _ hparts
      cases h
    · exact failure.error_ne_protocol _ h
  · cases h

/-- Of a reply that names no other action, the nonce is the next thing that is looked at. -/
theorem checkReply_eq_foreignNonce_iff {action : Action} {expected : Nonce} {body : Json.Members}
    (haction : body.Agrees "action" action.wireName) :
    checkReply action expected body = .error (.protocol (.foreignNonce action)) ↔
      ¬ body.Agrees "nonce" expected.toBase64 := by
  have hpasses := (checkMember_eq_ok_iff fun named => .namesAction action named.text).2 haction
  rw [← checkMember_eq_ok_iff fun _ => .foreignNonce action]
  simp only [checkReply, hpasses, bind, Except.bind]
  rcases hnonce : checkMember body "nonce" expected.toBase64 fun _ => .foreignNonce action with e | ⟨⟩
  · refine iff_of_true ?_ (by simp)
    unfold checkMember at hnonce
    split at hnonce
    · split at hnonce <;> cases hnonce
      rfl
    · cases hnonce
  · refine iff_of_false ?_ (not_not_intro rfl)
    simp only
    split
    · rintro ⟨⟩
    · intro h
      injection h with h
      exact refusal_ne_foreignNonce action body h

end Client

theorem Session.openReply_eq_strayNonce_iff {s : Session} {peer : PublicKey}
    {version : Option String} (h : s.handshake = .established peer version) {reply : BoxedReply}
    {expected : Nonce} :
    s.openReply reply expected = .error (.protocol (.strayNonce reply.action)) ↔
      reply.nonce ≠ expected := by
  rw [openReply_of_established h]
  split
  next hnonce =>
    refine iff_of_false ?_ (not_not_intro hnonce)
    split
    · unfold membersOf
      split <;> simp [Error.ofFault, Error.ofMisfit]
    · rename_i fault hopen
      rw [Box.eq_authentication_of_decrypt hopen]
      rintro ⟨⟩
  next hnonce => exact iff_of_true rfl hnonce

/-! ## One text each -/

open AssociationStore (load save)

/-- A nonce, a public key and a secret are read from their own text and from no other, so texts are
equal just if bytes are. The nonce inside a decrypted reply therefore passes just if it is the text of a
nonce under which a session would have opened the reply; and a list of associations that a store took is
loaded with every secret as it was. -/
theorem canonical_texts :
    (∀ text nonce, Nonce.ofBase64 text = .ok nonce ↔ text = nonce.toBase64) ∧
    (∀ text key, PublicKey.ofBase64 text = .ok key ↔ text = key.toBase64) ∧
    (∀ text keys bytes, (KeyPair.ofSecretBase64 text = .ok keys ∧ keys.secret.bytes = bytes) ↔
      (text = keys.secretBase64 ∧ keys.secret.bytes = bytes)) ∧
    ((∀ a b : Nonce, a.toBase64 = b.toBase64 ↔ a.bytes = b.bytes) ∧
      (∀ a b : PublicKey, a.toBase64 = b.toBase64 ↔ a.bytes = b.bytes) ∧
      (∀ a b : KeyPair, a.secretBase64 = b.secretBase64 ↔ a.secret.bytes = b.secret.bytes)) ∧
    (∀ action expected (body : Json.Members) value, body.Agrees "action" action.wireName →
      body.get? "nonce" = some value →
      ∀ (s : Session) peer version (reply : BoxedReply), s.handshake = .established peer version →
        (Client.checkReply action expected body ≠ .error (.protocol (.foreignNonce action)) ↔
          ∃ text nonce, value = .string text ∧ Nonce.ofBase64 text = .ok nonce ∧
            s.openReply { reply with nonce } expected ≠
              .error (.protocol (.strayNonce reply.action)))) ∧
    (∀ stored record, Association.ofStored stored = .ok record ↔ stored = record.toStored) ∧
    (∀ (records : List Association) (store store' : FileStore),
      save (records.map Association.toStored) store = (.ok (), store') →
        ∃ stored, load store' = .ok stored ∧ stored.mapM Association.ofStored = .ok records) ∧
    (∀ (records : List Association) (store store' : MemoryStore),
      save (records.map Association.toStored) store = (.ok (), store') →
        ∃ stored, load store' = .ok stored ∧ stored.mapM Association.ofStored = .ok records) := by
  refine ⟨fun _ _ => Nonce.ofBase64_eq_ok_iff, fun _ _ => PublicKey.ofBase64_eq_ok_iff,
    fun _ _ _ => and_congr_left' KeyPair.ofSecretBase64_eq_ok_iff,
    ⟨fun _ _ => Base64.encode_inj, fun _ _ => Base64.encode_inj, fun _ _ => Base64.encode_inj⟩,
    ?_, fun _ _ => Association.ofStored_eq_ok_iff, ?_, ?_⟩
  · intro action expected body value haction hvalue s peer version reply hs
    have hstray (nonce : Nonce) : s.openReply { reply with nonce } expected ≠
        .error (.protocol (.strayNonce reply.action)) ↔ nonce = expected :=
      (not_congr (Session.openReply_eq_strayNonce_iff hs)).trans not_not
    have hagrees : body.Agrees "nonce" expected.toBase64 ↔ value = .string expected.toBase64 := by
      simp [Json.Members.Agrees, hvalue]
    rw [Ne, Client.checkReply_eq_foreignNonce_iff haction, not_not, hagrees]
    simp only [hstray, Nonce.ofBase64_eq_ok_iff]
    constructor
    · rintro rfl
      exact ⟨_, expected, rfl, rfl, rfl⟩
    · rintro ⟨_, _, rfl, rfl, rfl⟩
      rfl
  · intro records store store' hsave
    have hload : FileStore.load store' = .ok (records.map Association.toStored) := by
      rcases FileStore.save_cases (records.map Association.toStored) store with
        ⟨fs', hstages, hsaved⟩ | ⟨_, _, _, _, -, -, hfailed⟩
      · cases hsave.symm.trans hsaved
        exact FileStore.load_of_read (FileStore.read_of_stages hstages)
      · cases hsave.symm.trans hfailed
    exact ⟨_, hload, Association.mapM_ofStored_toStored records⟩
  · intro records store store' hsave
    exact ⟨_, DurableStore.load_of_save_eq_ok hsave, Association.mapM_ofStored_toStored records⟩

/-- The text of the expected nonce passes inside a reply, and that of another nonce does not; an
association is saved into a new file and into memory, and loaded again. -/
theorem canonical_texts_used :
    let expected : Nonce := .ofNatLE 24 1
    let other : Nonce := .ofNatLE 24 2
    let records : List Association := [⟨"d", "n", .ofSecret (.ofNatLE 32 1)⟩]
    Client.checkReply .getLogins expected [("nonce", .string expected.toBase64)] ≠
        .error (.protocol (.foreignNonce .getLogins)) ∧
      ¬ Client.checkReply .getLogins expected [("nonce", .string other.toBase64)] ≠
        .error (.protocol (.foreignNonce .getLogins)) ∧
      (∃ stored store', save (records.map Association.toStored)
          (⟨"a/kp.json", { nodes := [] }⟩ : FileStore) = (.ok (), store') ∧
        load store' = .ok stored ∧ stored.mapM Association.ofStored = .ok records) ∧
      ∃ stored store', save (records.map Association.toStored) ({} : MemoryStore) = (.ok (), store') ∧
        load store' = .ok stored ∧ stored.mapM Association.ofStored = .ok records := by
  intro expected other records
  obtain ⟨hnonce, -, -, -, hcheck, -, hfile, hmemory⟩ := canonical_texts
  let s : Session :=
    { clientId := "client"
      keys := .ofSecret (.ofNatLE 32 1)
      handshake := .established (KeyPair.ofSecret (.ofNatLE 32 2)).publicKey none
      nonces := .new (.ofNatLE 24 0) }
  let reply : BoxedReply := ⟨.getLogins, expected, []⟩
  have hpasses (nonce : Nonce) := hcheck .getLogins expected
    [("nonce", .string nonce.toBase64)] _ nofun rfl s _ _ reply rfl
  have hsaved : save (records.map Association.toStored) ({} : MemoryStore) =
      (.ok (), { records := records.map Association.toStored, saves := 1 }) := rfl
  obtain ⟨stored, hloaded⟩ := hmemory records _ _ hsaved
  refine ⟨?_, ?_, ?_, stored, _, hsaved, hloaded⟩
  · refine (hpasses expected).2 ⟨_, expected, rfl, (hnonce _ _).2 rfl, ?_⟩
    exact fun hstray => (Session.openReply_eq_strayNonce_iff rfl).1 hstray rfl
  · intro hother
    obtain ⟨text, nonce, htext, hread, hopens⟩ := (hpasses other).1 hother
    cases htext
    cases ((hnonce _ _).2 rfl).symm.trans hread
    exact hopens ((Session.openReply_eq_strayNonce_iff rfl).2 (by decide))
  · have hok : (save (records.map Association.toStored)
        (⟨"a/kp.json", { nodes := [] }⟩ : FileStore)).1.isOk = true := by decide +kernel
    rcases hsave : save (records.map Association.toStored)
      (⟨"a/kp.json", { nodes := [] }⟩ : FileStore) with ⟨_ | ⟨⟩, store'⟩ <;> rw [hsave] at hok
    · cases hok
    · obtain ⟨stored, hloaded⟩ := hfile records _ _ hsave
      exact ⟨stored, store', rfl, hloaded⟩

end VaultLink
