import VaultLink.Proofs.Client.Introduction
import VaultLink.Proofs.Client.Questions
import VaultLink.Proofs.Client.Verdicts

/-!
# Calls of a closed client

A closed client stays closed, and a call of it fails because the connection is gone, unless something
that the call looks at before the connection forestalls this (`Forestalls`): the key exchange did not
take place, no record is kept for the database, or the association is validated already and nothing else
was asked for (`call_of_closed`).
-/

namespace VaultLink

/-- Whether a call of the operation looks at the session before it looks at the connection. -/
def Operation.looksFirst : Operation → Bool
  | shakeHands | nextEvent | getDatabaseHash _ | generatePassword | lockDatabase => false
  | _ => true

namespace Client

variable {σ : Type} {c d : Client σ} {operation : Operation} {e : Error}
  {peer : PublicKey} {result : Except Error Unit}

/-- What a call comes to before it looks at the connection. -/
inductive Forestalls (c : Client σ) : Operation → Except Error Unit → Prop
  /-- The key exchange did not take place. -/
  | unestablished {operation : Operation} {e : Error} : operation.looksFirst = true →
    c.session.requirePeer = .error e → Forestalls c operation (.error e)
  /-- There is no record to check. -/
  | unfiled {databaseId : String} {peer : PublicKey} : c.session.requirePeer = .ok peer →
    c.registry.lookup databaseId = none → Forestalls c (.testAssociation databaseId) (.ok ())
  /-- There is no record to make sure of. -/
  | unrecorded {operation : Operation} {peer : PublicKey} {hash : String} :
    operation.ensures = true → c.session.requirePeer = .ok peer → c.databaseHash = some hash →
    c.registry.lookup hash = none →
    Forestalls c operation (.error (.notAssociated (.noRecord hash)))
  /-- There is nothing left to make sure of. -/
  | validated {peer : PublicKey} {record : Association} : c.session.requirePeer = .ok peer →
    StandsFor c record → Forestalls c .ensureAssociated (.ok ())

/-! ## What forestalls a call -/

theorem requirePeer_ne_disconnected (s : Session) : s.requirePeer ≠ .error .disconnected := by
  unfold Session.requirePeer
  split <;> simp

theorem Forestalls.ne_disconnected (h : Forestalls c operation result) :
    result ≠ .error .disconnected := by
  cases h with
  | unestablished _ hp =>
    rintro ⟨⟩
    exact requirePeer_ne_disconnected _ hp
  | unfiled | unrecorded | validated => simp

theorem ensureEstablished_of_error (hp : c.session.requirePeer = .error e) :
    ensureEstablished c = .error e c := by
  simp only [ensureEstablished, bind_apply, get_apply, hp, ofExcept_error]

theorem testAssociation_of_lookup_eq_none {databaseId : String} (hp : c.session.requirePeer = .ok peer)
    (hl : c.registry.lookup databaseId = none) : testAssociation databaseId c = .ok .notFound c := by
  simp only [testAssociation, bind_apply, ensureEstablished, get_apply, hp, ofExcept_ok, pure_apply, hl]

variable [AssociationStore σ]

/-- A call that makes sure of the association fails if that fails. -/
theorem call_of_ensureAssociated_eq_error (h : operation.ensures = true)
    (he : ensureAssociated c = .error e d) : operation.call c = .error e d := by
  obtain ⟨f, hf, -⟩ := ensuresFirst_call (σ := σ) h
  rw [hf]
  exact bind_of_error he f

theorem call_of_unestablished (h : operation.looksFirst = true)
    (hp : c.session.requirePeer = .error e) : operation.call c = .error e c := by
  by_cases he : operation.ensures = true
  · exact call_of_ensureAssociated_eq_error he (by rw [ensureAssociated_eq, hp])
  cases operation with
  | shakeHands | nextEvent | getDatabaseHash | generatePassword | lockDatabase => cases h
  | associate => exact bind_of_error (by rw [associate_eq, hp]) _
  | testAssociate => exact bind_of_error (by rw [testAssociate_eq, hp]) _
  | testAssociation => exact bind_of_error (bind_of_error (ensureEstablished_of_error hp) _) _
  | _ => exact absurd rfl he

theorem ensureAssociated_of_lookup_eq_none {hash : String} (hp : c.session.requirePeer = .ok peer)
    (hh : c.databaseHash = some hash) (hl : c.registry.lookup hash = none) :
    ensureAssociated c =
      .error (.notAssociated (.noRecord hash)) { c with association := .notAssociated } := by
  simp only [ensureAssociated_eq, hp, currentDatabase_eq, hh, hl]

/-- What forestalls a call is its result, whether the client is closed or not. -/
theorem Forestalls.exists_call_eq (h : Forestalls c operation result) :
    ∃ d, operation.call c = ofExcept result d := by
  cases h with
  | unestablished hf hp => exact ⟨c, call_of_unestablished hf hp⟩
  | unfiled hp hl => exact ⟨c, bind_of_ok (testAssociation_of_lookup_eq_none hp hl) _⟩
  | unrecorded he hp hh hl =>
    exact ⟨_, call_of_ensureAssociated_eq_error he (ensureAssociated_of_lookup_eq_none hp hh hl)⟩
  | validated hp hs => exact ⟨c, bind_of_ok (hs.ensureAssociated_eq hp).1 _⟩

/-! ## Calls that come to the connection -/

/-- A closed client makes sure of the association without asking or not at all. -/
theorem ensureAssociated_of_closed (hc : c.closed = true) (hp : c.session.requirePeer = .ok peer)
    (hl : ∀ hash, c.databaseHash = some hash → c.registry.lookup hash ≠ none) :
    ensureAssociated c = .error .disconnected c ∨
      ∃ record, StandsFor c record ∧ ensureAssociated c = .ok record c := by
  rcases hh : c.databaseHash with _ | hash
  · left
    simp only [ensureAssociated_eq, hp, currentDatabase_eq, hh,
      (Asks.getDatabaseHash c.config.triggerUnlock c).of_closed hc]
  obtain ⟨record, hrecord⟩ := Option.ne_none_iff_exists'.1 (hl hash hh)
  by_cases hv : c.association = .validated
  · right
    have hstands : StandsFor c record := by
      obtain rfl := Registry.databaseId_of_lookup hrecord
      exact ⟨hv, hh, hrecord⟩
    exact ⟨record, hstands, (hstands.ensureAssociated_eq hp).1⟩
  · left
    have htest := (Asks.testAssociate hp record).of_closed hc
    exact (Checks.of_known hp hh hrecord hv).ensureAssociated_eq.trans (by rw [htest])

theorem associate_of_closed (hc : c.closed = true) (hp : c.session.requirePeer = .ok peer) :
    associate c = .error .disconnected c.afterFreshKey := by
  have hround := roundTrip_of_closed (c := c.afterFreshKey) hc .associate (associateFields c) false
  rw [associate_eq, hp]
  simp only [hround]
  rfl

/-- Nothing else than the connection ends a call that is not forestalled. -/
theorem call_of_not_forestalls (hc : c.closed = true) (h : ∀ result, ¬ Forestalls c operation result) :
    ∃ d, operation.call c = .error .disconnected d := by
  by_cases hf : operation.looksFirst = true
  · obtain ⟨peer, hp⟩ : ∃ peer, c.session.requirePeer = .ok peer := by
      rcases hp : c.session.requirePeer with e | peer
      · exact absurd (.unestablished hf hp) (h _)
      · exact ⟨peer, rfl⟩
    by_cases he : operation.ensures = true
    · rcases ensureAssociated_of_closed hc hp fun hash hh hl => h _ (.unrecorded he hp hh hl) with
        hensure | ⟨record, hstands, hensure⟩
      · exact ⟨c, call_of_ensureAssociated_eq_error he hensure⟩
      · by_cases hne : operation = .ensureAssociated
        · subst hne
          exact absurd (.validated hp hstands) (h _)
        · obtain ⟨action, f, -, hcall, hasks⟩ := ensuresThenAsks_call (σ := σ) he hne
          rw [hcall, bind_of_ok hensure]
          exact ⟨c, (hasks record c).of_closed hc⟩
    cases operation with
    | shakeHands | nextEvent | getDatabaseHash | generatePassword | lockDatabase => cases hf
    | associate => exact ⟨_, bind_of_error (associate_of_closed hc hp) _⟩
    | testAssociate record => exact ⟨c, bind_of_error ((Asks.testAssociate hp record).of_closed hc) _⟩
    | testAssociation databaseId =>
      rcases hl : c.registry.lookup databaseId with _ | record
      · exact absurd (.unfiled hp hl) (h _)
      · refine ⟨c, bind_of_error ?_ _⟩
        rw [testAssociation_of_lookup hl]
        exact (Asks.testAssociate hp record).of_closed hc
    | _ => exact absurd rfl he
  cases operation with
  | shakeHands => exact ⟨c, bind_of_error (ensureOpen_of_closed hc) _⟩
  | nextEvent => exact ⟨c, bind_of_error (bind_of_error (ensureOpen_of_closed hc) _) _⟩
  | getDatabaseHash => exact ⟨c, bind_of_error ((Asks.getDatabaseHash _ c).of_closed hc) _⟩
  | generatePassword => exact ⟨c, bind_of_error ((Asks.generatePassword c).of_closed hc) _⟩
  | lockDatabase => exact ⟨c, (Asks.lockDatabase c).of_closed hc⟩
  | _ => exact absurd rfl hf

/-! ## Runs -/

/-- Once a client is closed it stays closed, whatever is called and whatever happens around it. A call
then fails because the connection is gone exactly if nothing forestalls it, and otherwise it comes to
what forestalls it. -/
theorem call_of_closed (h : c.closed = true) (moves : List (Move σ)) (operation : Operation) :
    (run moves c).closed = true ∧
      ((∃ d, operation.call (run moves c) = .error .disconnected d) ↔
        ∀ result, ¬ Forestalls (run moves c) operation result) ∧
      ∀ result, Forestalls (run moves c) operation result →
        ∃ d, operation.call (run moves c) = ofExcept result d := by
  have hspent : Spent c := .inl h
  have hclosed := (hspent.stays_run moves).closed_of_closed h
  refine ⟨hclosed, ⟨?_, call_of_not_forestalls hclosed⟩, fun _ => Forestalls.exists_call_eq⟩
  rintro ⟨d, hcall⟩ result hf
  obtain ⟨d', hresult⟩ := hf.exists_call_eq
  have hne := hf.ne_disconnected
  rw [hcall] at hresult
  rcases result with e | ⟨⟩ <;> cases hresult
  exact hne rfl

theorem call_of_closed_broken :
    ∃ c : Client MemoryStore, c.closed = true ∧ ∀ moves : List (Move MemoryStore),
      (run moves c).closed = true ∧
        ∃ d, Operation.generatePassword.call (run moves c) = .error .disconnected d := by
  obtain ⟨-, c, -, -, -, hc⟩ := exists_shakeHands_broken
  refine ⟨c, hc, fun moves => ?_⟩
  obtain ⟨hclosed, hiff, -⟩ := call_of_closed hc moves .generatePassword
  refine ⟨hclosed, hiff.2 fun result hf => ?_⟩
  cases hf with
  | unestablished hl => cases hl
  | unrecorded he => cases he

/-- A client that stands for a record and is left without a reply is closed and still stands for it. -/
theorem exists_generatePassword_silent {place : Nat} {record : Association} (h : Idle c peer place)
    (hp : place + 2 ≤ Nonce.count) (hs : StandsFor c record) :
    ∃ d, perform .generatePassword (silence.apply c) = d ∧ d.closed = true ∧
      d.session.requirePeer = .ok peer ∧ StandsFor d record := by
  obtain ⟨wait, d, hround, link, nonces, journal, rfl⟩ :=
    exists_roundTrip_silent h hp (show Outbound.sendable .generatePassword = true from rfl) [] false
  exact ⟨_, after_bind_of_error hround _, rfl, h.requirePeer_eq, hs.validated, hs.databaseHash_eq,
    hs.lookup_eq⟩

/-- Not every call of a closed client fails: a client that was associated and is then closed because a
reply stays out makes sure of its association all the same. -/
theorem not_forall_disconnected_of_closed :
    ¬ ∀ (moves : List (Move MemoryStore)) (clock : Instant) (config : Config)
      (registry : Registry MemoryStore) (entropy : Entropy) (operation : Operation),
      (run moves (new clock config registry entropy)).closed = true →
      ∃ d, operation.call (run moves (new clock config registry entropy)) =
        .error .disconnected d := by
  intro h
  obtain ⟨first, peer, b, hb, hidle, hregistry, -⟩ :=
    exists_introduced (⟨[], {}⟩ : Registry MemoryStore)
  obtain ⟨second, record, c, hassociate, hidle, hstands⟩ :=
    exists_associate_prompt hidle (by decide) hregistry
  obtain ⟨d, hd, hclosed, hp, hstands⟩ := exists_generatePassword_silent hidle (by decide) hstands
  have h := h ([prompt [] first, .call .shakeHands] ++ [prompt [] second, .call .associate] ++
    [silence, .call .generatePassword]) 0 usual ⟨[], {}⟩ (.ofBytes []) .ensureAssociated
  generalize new 0 usual (⟨[], {}⟩ : Registry MemoryStore) (.ofBytes []) = start at h hb
  have hc : run ([prompt [] first, .call .shakeHands] ++ [prompt [] second, .call .associate]) start =
      c := by
    rw [run_prompt_call, hb]
    exact after_of_ok hassociate
  have hrun : run ([prompt [] first, .call .shakeHands] ++ [prompt [] second, .call .associate] ++
      [silence, .call .generatePassword]) start = d := by
    rw [run_append, hc]
    exact hd
  rw [hrun] at h
  obtain ⟨d', hcall⟩ := h hclosed
  have hensure : Operation.ensureAssociated.call d = .ok () d :=
    bind_of_ok (hstands.ensureAssociated_eq hp).1 _
  cases hensure.symm.trans hcall

end Client

end VaultLink
