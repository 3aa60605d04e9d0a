import VaultLink.Proofs.Association.Stores
import VaultLink.Proofs.Client.Prompting
import VaultLink.Proofs.Client.Spent

/-!
# Fatal errors

A fatal error is for good: whichever operation fails with it leaves a spent client (`Leaves`,
`leaves_call`). An error that breaks the stream closes the client. The others are of the session
(`Error.ofSession`), and it fails with them only when it is spent itself. A store has to blame itself for
a list that it does not take (`CandidStore`), which every store of the program does. So nothing is
written and no nonce is taken afterwards, and every operation that has to ask the proxy fails
(`retired_of_fatal`).
-/

namespace VaultLink

/-- Whether an error is one of the session's own: of the key exchange or of the nonces. -/
def Error.ofSession : Error → Bool
  | handshakeFailed _ | crypto _ => true
  | _ => false

theorem Error.isFatal_eq (e : Error) : e.isFatal = (Client.breaksStream e || e.ofSession) := by
  cases e <;> rfl

theorem FailsMalformed.ofSession_eq_false {α : Type} {result : Except Error α} {e : Error}
    (h : FailsMalformed result) (he : result = .error e) : e.ofSession = false := by
  obtain ⟨cause, rfl⟩ := h e he
  rfl

/-- The proxy does not tell of the session's own errors. -/
theorem Failure.ofSession_error (failure : Failure) : failure.error.ofSession = false := by
  unfold error
  split
  case h_5 | h_6 => split <;> rfl
  all_goals rfl

theorem Outbound.encode_eq_error {message : Outbound} {e : Error} (h : message.encode = .error e) :
    ∃ action, e = .protocol (.unsendable action) := by
  unfold encode at h
  split at h
  · cases h
  · split at h <;> cases h
    exact ⟨_, rfl⟩

theorem Link.send_eq_error {link link' : Link} {message : Bytes} {e : Error}
    (h : link.send message = (.error e, link')) : ∃ text, e = .transport text := by
  unfold send at h
  split at h
  · cases h
    exact ⟨_, rfl⟩
  · split at h <;> cases h

/-! ## Sessions -/

namespace Session

variable {s t : Session} {e : Error}

theorem rejected_of_requirePeer (h : s.requirePeer = .error e) (he : e ≠ .notEstablished) :
    s.handshake = .rejected := by
  unfold requirePeer at h
  split at h <;> cases h
  · assumption
  · exact absurd rfl he
  · exact absurd rfl he

theorem spent_of_sealRequest {action : Action} {fields : Json.Members} {triggerUnlock : Bool}
    (h : s.sealRequest action fields triggerUnlock = (.error e, t)) (he : e.ofSession = true) :
    t.Spent := by
  unfold sealRequest at h
  rcases hp : s.requirePeer with e' | peer <;> rw [hp] at h
  · cases h
    exact .inl (rejected_of_requirePeer hp (by rintro rfl; cases he))
  rcases hr : s.reserve with ⟨e' | ⟨nonce, reply⟩, u⟩ <;> simp only [hr] at h <;> cases h
  exact .inr (reserve_eq_exhausted hr).2

theorem spent_of_begin (h : s.begin = (.error e, t)) (he : e.isFatal = true) : t.Spent := by
  unfold Session.begin at h
  split at h
  · rcases hr : s.reserve with ⟨e' | ⟨request, reply⟩, u⟩ <;> rw [hr] at h <;> cases h
    exact .inr (reserve_eq_exhausted hr).2
  · cases h
    cases he

theorem spent_of_complete {reply : Inbound} (h : s.complete reply = (.error e, t))
    (he : e.isFatal = true) : t.Spent := by
  unfold complete at h
  split at h
  · split at h <;> cases h
    exact .inl rfl
  · cases h
    cases he

theorem spent_of_openReply {reply : BoxedReply} {expected : Nonce}
    (h : s.openReply reply expected = .error e) (he : e.ofSession = true) : s.Spent := by
  rcases hp : s.requirePeer with e' | peer
  · rw [openReply_of_requirePeer hp] at h
    cases h
    exact .inl (rejected_of_requirePeer hp (by rintro rfl; cases he))
  obtain ⟨version, hs⟩ := requirePeer_eq_ok hp
  rw [openReply_of_established hs] at h
  split at h
  · split at h
    · unfold membersOf at h
      split at h <;> cases h <;> cases he
    · rename_i hd
      rw [Box.eq_authentication_of_decrypt hd] at h
      cases h
      cases he
  · cases h
    cases he

end Session

/-! ## Registries -/

namespace Registry

variable {σ : Type} [AssociationStore σ] [CandidStore σ] {registry registry' : Registry σ} {e : Error}

theorem exists_of_insert_eq_error {record : Association}
    (h : registry.insert record = (.error e, registry')) : ∃ cause, e = .store cause := by
  obtain ⟨failed, hp, -⟩ := insert_eq_error h
  exact CandidStore.exists_of_save_eq_error (save_of_persist hp)

theorem exists_of_evict_eq_error {databaseId : String}
    (h : registry.evict databaseId = (.error e, registry')) : ∃ cause, e = .store cause := by
  obtain ⟨failed, hp, -⟩ := evict_eq_error h
  exact CandidStore.exists_of_save_eq_error (save_of_persist hp)

end Registry

namespace Client

open Link (Received)

variable {σ α β : Type} {c d : Client σ} {e : Error} {kind : Error → Bool} {Q : Client σ → Prop}

/-! ## What an error leaves -/

/-- A program that fails with an error of a kind leaves such a client. -/
def Leaves (kind : Error → Bool) (Q : Client σ → Prop) (m : Run σ α) : Prop :=
  ∀ c e d, m c = .error e d → kind e = true → Q d

namespace Leaves

theorem pure (a : α) : Leaves kind Q (pure a : Run σ α) := fun _ _ _ h => by cases h

theorem get : Leaves kind Q (get : Run σ (Client σ)) := fun _ _ _ h => by cases h

theorem modify (f : Client σ → Client σ) : Leaves kind Q (modify f : Run σ Unit) :=
  fun _ _ _ h => by cases h

/-- An error of another kind. -/
theorem throw (h : kind e = false) : Leaves kind Q (throw e : Run σ α) := by
  intro c e' d hc he
  cases hc
  cases h.symm.trans he

theorem ofExcept {result : Except Error α} (h : ∀ e, result = .error e → kind e = false) :
    Leaves kind Q (ofExcept result : Run σ α) := by
  rcases result with e | a
  · exact throw (h e rfl)
  · exact pure a

theorem bind {m : Run σ α} {f : α → Run σ β} (hm : Leaves kind Q m) (hf : ∀ a, Leaves kind Q (f a)) :
    Leaves kind Q (m >>= f) := by
  intro c e d h he
  rcases hc : m c with ⟨a, b⟩ | ⟨e', b⟩
  · rw [bind_of_ok hc] at h
    exact hf a b e d h he
  · rw [bind_of_error hc] at h
    cases h
    exact hm c e d hc he

/-- An error that is caught is thrown again or dealt with. -/
theorem tryCatch {m : Run σ α} {handle : Error → Run σ α} (hm : Leaves kind Q m)
    (hh : ∀ e, handle e = MonadExcept.throw e ∨ Leaves kind Q (handle e)) :
    Leaves kind Q (tryCatch m handle) := by
  intro c e d h he
  rcases hc : m c with ⟨a, b⟩ | ⟨e', b⟩
  · rw [tryCatch_of_ok hc] at h
    cases h
  · rw [tryCatch_of_error hc] at h
    rcases hh e' with hsame | hleaves
    · rw [hsame] at h
      cases h
      exact hm c e d hc he
    · exact hleaves b e d h he

end Leaves

/-! ## Exchanges -/

theorem ofSession_of_conclude {action : Action} {wait : Duration} {received : Received}
    (hf : ∀ e, received = .failed e → Link.Fails e) (h : conclude action wait received = .error e) :
    e.ofSession = false := by
  cases received with
  | failed e' =>
    cases h
    cases hf _ rfl <;> rfl
  | late | never =>
    cases h
    rfl
  | message text =>
    simp only [conclude] at h
    rcases hdec : Inbound.decode text with e' | inbound <;> simp only [hdec] at h
    · cases h
      obtain ⟨cause, rfl⟩ := Inbound.decode_eq_error hdec
      rfl
    · split at h <;> cases h
      rfl

theorem leaves_awaitReply (action : Action) (wait : Duration) :
    Leaves Error.ofSession Q (awaitReply action wait : Run σ Inbound) := by
  intro c e d h he
  rcases hd : c.deadline? wait with _ | deadline
  · rw [awaitReply_of_no_deadline hd] at h
    cases h
    cases he
  · obtain ⟨signals, received, link, hb⟩ := Link.exists_brings deadline c.link
    rw [awaitReply_of_deadline hd hb] at h
    rcases hc : conclude action wait received with e' | inbound <;> rw [hc] at h <;> cases h
    obtain ⟨last, hr, -⟩ := hb.exists_receive
    cases (ofSession_of_conclude (fun e he => Link.fails_of_receive (he ▸ hr)) hc).symm.trans he

theorem ofSession_of_checkMember {body : Json.Members} {name text : String} {breach : Json → Breach}
    (h : checkMember body name text breach = .error e) : e.ofSession = false := by
  unfold checkMember at h
  split at h
  · split at h <;> cases h
    rfl
  · cases h

theorem ofSession_refusal (action : Action) (body : Json.Members) :
    (refusal action body).ofSession = false := by
  unfold refusal
  split
  · simp only
    rcases hf : Failure.ofParts action (body.get? "errorCode")
      ((body.get? "error" >>= Json.asString?).getD "") with e | failure
    · exact (Failure.failsMalformed_ofParts _ _ _).ofSession_eq_false hf
    · exact failure.ofSession_error
  · rfl

theorem ofSession_of_checkReply {action : Action} {nonce : Nonce} {body : Json.Members}
    (h : checkReply action nonce body = .error e) : e.ofSession = false := by
  simp only [checkReply, bind, Except.bind] at h
  split at h
  · cases h
    exact ofSession_of_checkMember (by assumption)
  split at h
  · cases h
    exact ofSession_of_checkMember (by assumption)
  split at h
  · cases h
  · cases h
    exact ofSession_refusal action body

theorem leaves_settle (action : Action) (request : SealedRequest) (inbound : Inbound) :
    Leaves Error.ofSession (fun d => d.session.Spent)
      (settle action request inbound : Run σ Json.Members) := by
  intro c e d h he
  cases inbound with
  | encrypted reply =>
    simp only [settle, bind_apply, get_apply] at h
    rcases ho : c.session.openReply reply request.replyNonce with e' | opened <;>
      simp only [ho, ofExcept_ok, ofExcept_error] at h
    · cases h
      exact Session.spent_of_openReply ho he
    rcases hk : checkReply action request.replyNonce opened with e' | result <;>
      simp only [hk, ofExcept_ok, ofExcept_error] at h <;> cases h
    cases (ofSession_of_checkReply hk).symm.trans he
  | failure failure =>
    cases h
    cases failure.ofSession_error.symm.trans he
  | _ =>
    cases h
    cases he

theorem leaves_submit (action : Action) (fields : Json.Members) (triggerUnlock : Bool) :
    Leaves Error.ofSession (fun d => d.session.Spent)
      (submit action fields triggerUnlock : Run σ SealedRequest) := by
  intro c e d h he
  rw [submit_eq] at h
  rcases hs : c.session.sealRequest action fields triggerUnlock with ⟨e' | request, session⟩ <;>
    simp only [hs] at h
  · cases h
    exact Session.spent_of_sealRequest hs he
  rcases hb : request.envelope.encode with e' | bytes <;> simp only [hb] at h
  · cases h
    obtain ⟨unsent, rfl⟩ := Outbound.encode_eq_error hb
    cases he
  rcases hl : c.link.send bytes with ⟨e' | _, link⟩ <;> simp only [hl] at h <;> cases h
  obtain ⟨text, rfl⟩ := Link.send_eq_error hl
  cases he

/-- An error that breaks the stream closes the client. -/
theorem leaves_closing {m : Run σ α} (hm : Leaves Error.ofSession (fun d => d.session.Spent) m) :
    Leaves Error.isFatal Spent (closing m) := by
  intro c e d h he
  rcases hc : m c with ⟨a, b⟩ | ⟨e', b⟩
  · rw [closing_of_ok hc] at h
    cases h
  · rw [closing_of_error hc] at h
    cases h
    rw [Error.isFatal_eq, Bool.or_eq_true] at he
    rcases he with hbreaks | hsession
    · exact .inl (by simp [hbreaks])
    · exact .inr (hm c _ b hc hsession)

theorem leaves_ensureOpen : Leaves kind Spent (ensureOpen : Run σ Unit) := by
  intro c e d h _
  rcases ho : c.closed with _ | _
  · rw [ensureOpen_of_open ho] at h
    cases h
  · rw [ensureOpen_of_closed ho] at h
    cases h
    exact .inl ho

theorem leaves_roundTrip (action : Action) (fields : Json.Members) (triggerUnlock : Bool) :
    Leaves Error.isFatal Spent (roundTrip action fields triggerUnlock : Run σ Json.Members) :=
  .bind leaves_ensureOpen fun _ => leaves_closing <|
    .bind (leaves_submit action fields triggerUnlock) fun request => .bind .get fun _ =>
      .bind (leaves_awaitReply _ _) fun inbound => leaves_settle action request inbound

theorem leaves_requireText (reply : Json.Members) (name : String) :
    Leaves Error.isFatal Q (ofExcept (requireText reply name) : Run σ String) := by
  refine .ofExcept fun e h => ?_
  unfold requireText at h
  split at h <;> cases h
  rfl

theorem leaves_ensureEstablished : Leaves Error.isFatal Spent (ensureEstablished : Run σ Unit) := by
  intro c e d h he
  simp only [ensureEstablished, bind_apply, get_apply] at h
  rcases hp : c.session.requirePeer with e' | peer <;> rw [hp] at h <;> cases h
  exact .inr (.inl (Session.rejected_of_requirePeer hp (by rintro rfl; cases he)))

/-! ## The key exchange and listening -/

theorem leaves_offerKey : Leaves Error.isFatal Spent (offerKey : Run σ Unit) := by
  intro c e d h he
  rw [offerKey_eq] at h
  rcases hs : c.session.begin with ⟨e' | request, session⟩ <;> simp only [hs] at h
  · cases h
    exact .inr (Session.spent_of_begin hs he)
  rcases hb : request.encode with e' | bytes <;> simp only [hb] at h
  · cases h
    obtain ⟨unsent, rfl⟩ := Outbound.encode_eq_error hb
    cases he
  rcases hl : c.link.send bytes with ⟨e' | _, link⟩ <;> simp only [hl] at h <;> cases h
  obtain ⟨text, rfl⟩ := Link.send_eq_error hl
  exact .inl rfl

/-- Once the client's key was sent, every failure of the key exchange is for good. -/
theorem spent_of_takeKey {expected : Nonce} (hs : c.session.handshake = .keysSent expected)
    (h : takeKey c = .error e d) (he : e.isFatal = true) : Spent d := by
  obtain ⟨result, signals, link, ha, -⟩ :=
    awaitReply_cases .changePublicKeys c.config.requestTimeout c
  simp only [takeKey, bind_apply, get_apply] at h
  cases result with
  | error e' =>
    rw [tryCatch_of_error (closing_of_error ha)] at h
    cases h
    right; left
    show c.session.reject.handshake = .rejected
    rw [Session.reject, hs]
  | ok reply =>
    rw [tryCatch_of_ok (closing_of_ok ha)] at h
    simp only [onSession_eq] at h
    rcases hc : Session.complete reply (c.heard signals link).session with ⟨e' | ⟨⟩, session⟩ <;>
      rw [hc] at h <;> cases h
    exact .inr (Session.spent_of_complete hc he)

theorem leaves_shakeHands : Leaves Error.isFatal Spent (shakeHands : Run σ Unit) := by
  refine .bind leaves_ensureOpen fun _ => ?_
  intro c e d h he
  rcases hk : offerKey c with ⟨⟨⟩, sent⟩ | ⟨e', b⟩
  · obtain ⟨message, hoffers, -⟩ := offerKey_eq_ok hk
    obtain ⟨reply, -, hsent⟩ := hoffers.reserves
    rw [bind_of_ok hk] at h
    exact spent_of_takeKey hsent h he
  · rw [bind_of_error hk] at h
    cases h
    exact leaves_offerKey c e d hk he

theorem leaves_nextEventFrom (fuel : Nat) :
    Leaves Error.isFatal Spent (nextEventFrom fuel : Run σ (Option Signal)) := by
  induction fuel with
  | zero => exact .pure _
  | succ fuel ih =>
    intro c e d h he
    rcases hr : c.link.receive none with ⟨received, link⟩
    rw [nextEventFrom_succ hr] at h
    cases received with
    | late | never => cases h
    | failed e' =>
      cases h
      cases Link.fails_of_receive hr with
      | disconnected | transport => exact .inl rfl
      | malformed => cases he
    | message text =>
      simp only at h
      rcases hdec : Inbound.decode text with e' | inbound <;> simp only [hdec] at h
      · cases h
        obtain ⟨cause, rfl⟩ := Inbound.decode_eq_error hdec
        cases he
      · cases inbound with
        | signal s => cases h
        | keyExchange | encrypted | failure => exact ih _ e d h he

theorem leaves_nextEvent : Leaves Error.isFatal Spent (nextEvent : Run σ (Option Signal)) :=
  .bind leaves_ensureOpen fun _ => .bind .get fun _ => leaves_nextEventFrom _

/-! ## The association -/

theorem leaves_getDatabaseHash (triggerUnlock : Bool) :
    Leaves Error.isFatal Spent (getDatabaseHash triggerUnlock : Run σ String) :=
  .bind (leaves_roundTrip _ _ _) fun _ => .bind (leaves_requireText _ _) fun _ =>
    .bind (.modify _) fun _ => .pure _

theorem leaves_currentDatabase : Leaves Error.isFatal Spent (currentDatabase : Run σ String) := by
  refine .bind .get fun c => ?_
  split
  · exact .pure _
  · exact .bind .get fun _ => leaves_getDatabaseHash _

theorem leaves_testAssociate (record : Association) :
    Leaves Error.isFatal Spent (testAssociate record : Run σ TestOutcome) := by
  intro c e d h he
  rw [testAssociate_eq] at h
  rcases hp : c.session.requirePeer with e' | peer <;> simp only [hp] at h
  · cases h
    exact .inr (.inl (Session.rejected_of_requirePeer hp (by rintro rfl; cases he)))
  rcases hr : roundTrip .testAssociate (checkFields record) false c with ⟨body, b⟩ | ⟨e', b⟩ <;>
    rw [hr] at h
  · obtain ⟨outcome, databaseHash, association, hj, -⟩ := judgeTest_cases record body b
    simp only [hj] at h
    cases h
  · have hsame : e = e' ∧ d = b := by
      cases e' <;> cases h <;> exact ⟨rfl, rfl⟩
    obtain ⟨rfl, rfl⟩ := hsame
    exact leaves_roundTrip _ _ _ c e d hr he

theorem leaves_testAssociation (databaseId : String) :
    Leaves Error.isFatal Spent (testAssociation databaseId : Run σ TestOutcome) := by
  refine .bind leaves_ensureEstablished fun _ => .bind .get fun c => ?_
  split
  · exact leaves_testAssociate _
  · exact .pure _

theorem leaves_onRegistry {f : Registry σ → Except Error α × Registry σ}
    (hf : ∀ registry e registry', f registry = (.error e, registry') → ∃ cause, e = .store cause) :
    Leaves Error.isFatal Q (onRegistry f) := by
  intro c e d h he
  rw [onRegistry_eq] at h
  rcases hr : f c.registry with ⟨e' | a, registry⟩ <;> rw [hr] at h <;> cases h
  obtain ⟨cause, rfl⟩ := hf _ _ _ hr
  cases he

/-! ## Requests -/

theorem leaves_conform (reader : Json.Conform α) (value : Json) :
    Leaves Error.isFatal Q (conform reader value : Run σ α) := by
  unfold conform
  split
  · exact .pure _
  · exact .throw rfl

theorem Leaves.unlessRejected (code : ErrorCode) (instead : α) {operation : Run σ α}
    (h : Leaves kind Q operation) : Leaves kind Q (unlessRejected code instead operation) := by
  refine .tryCatch h fun e => ?_
  split
  · split
    · exact .inr (.pure _)
    · exact .inl rfl
  · exact .inl rfl

theorem leaves_generatePassword :
    Leaves Error.isFatal Spent (generatePassword : Run σ String) := by
  refine .bind (leaves_roundTrip _ _ _) fun reply => ?_
  split
  · exact .pure _
  · exact .throw rfl

theorem leaves_lockDatabase : Leaves Error.isFatal Spent (lockDatabase : Run σ Unit) := by
  refine .bind (.tryCatch (.bind (leaves_roundTrip _ _ _) fun _ => .pure _) fun e => ?_) fun _ =>
    .modify _
  split
  · exact .inr (.pure _)
  · exact .inr (.pure _)
  · exact .inl rfl

variable [AssociationStore σ] [CandidStore σ]

/-! ## Associating -/

theorem leaves_associate : Leaves Error.isFatal Spent (associate : Run σ Association) := by
  refine .bind leaves_ensureEstablished fun _ => .bind .get fun c => ?_
  refine .bind (.modify _) fun _ => .bind .get fun _ => .bind ?_ fun reply => ?_
  · refine .tryCatch (leaves_roundTrip _ _ _) fun e => ?_
    cases e with
    | timeout => exact .inr (.throw rfl)
    | _ => exact .inl rfl
  · exact .bind (leaves_requireText _ _) fun _ => .bind (leaves_requireText _ _) fun _ =>
      .bind (leaves_onRegistry fun _ _ _ => Registry.exists_of_insert_eq_error) fun _ =>
        .bind (.modify _) fun _ => .pure _

/-- A record that was refused is removed, or the store fails. -/
theorem leaves_evict (hash : String) (cause : Estrangement) :
    Leaves Error.isFatal Spent (do
      let _ ← onRegistry (Registry.evict hash)
      modify fun c => { c with association := .notAssociated }
      throw (.notAssociated cause) : Run σ Association) :=
  .bind (leaves_onRegistry fun _ _ _ => Registry.exists_of_evict_eq_error) fun _ =>
    .bind (.modify _) fun _ => .throw rfl

theorem leaves_ensureAssociated :
    Leaves Error.isFatal Spent (ensureAssociated : Run σ Association) := by
  refine .bind leaves_ensureEstablished fun _ => .bind leaves_currentDatabase fun hash =>
    .bind .get fun c => ?_
  split
  · exact .bind (.modify _) fun _ => .throw rfl
  refine .bind .get fun _ => ?_
  split
  · exact .pure _
  refine .bind (leaves_testAssociate _) fun outcome => ?_
  split
  · exact .bind (.modify _) fun _ => .pure _
  refine .bind .get fun _ => ?_
  split
  · exact .bind (.throw rfl) fun _ => leaves_evict hash _
  · exact leaves_evict hash _

/-! ## Operations -/

theorem leaves_privileged (action : Action) (fields : Client σ → Json.Members) :
    Leaves Error.isFatal Spent (privileged action fields : Run σ Json.Members) :=
  .bind leaves_ensureAssociated fun _ => .bind .get fun _ => leaves_roundTrip _ _ _

theorem leaves_getLogins (query : LoginQuery) :
    Leaves Error.isFatal Spent (getLogins query : Run σ (List LoginEntry)) := by
  refine .bind leaves_ensureAssociated fun _ => .bind .get fun _ =>
    .bind (.unlessRejected _ _ (.bind (leaves_roundTrip _ _ _) fun _ => .pure _)) fun entries => ?_
  split
  · exact .pure _
  · exact leaves_conform _ _

theorem leaves_getDatabaseGroups :
    Leaves Error.isFatal Spent (getDatabaseGroups : Run σ GroupTree) := by
  refine .bind leaves_ensureAssociated fun _ =>
    .bind (.unlessRejected _ _ (.bind (leaves_roundTrip _ _ _) fun _ => .pure _)) fun groups => ?_
  split
  · exact .pure _
  · exact .bind (leaves_conform _ _) fun _ => .pure _

theorem leaves_passkeys (action : Action) (publicKey : Json) (origin : String) :
    Leaves Error.isFatal Spent (passkeys action publicKey origin : Run σ Json) := by
  refine .bind (leaves_privileged _ _) fun reply => ?_
  split
  · exact .pure _
  · exact .throw rfl

/-- Whatever fails with a fatal error leaves a spent client. -/
theorem leaves_call (operation : Operation) :
    Leaves Error.isFatal Spent (operation.call : Run σ Unit) := by
  cases operation with
  | shakeHands => exact leaves_shakeHands
  | nextEvent => exact .bind leaves_nextEvent fun _ => .pure _
  | getDatabaseHash => exact .bind (leaves_getDatabaseHash _) fun _ => .pure _
  | associate => exact .bind leaves_associate fun _ => .pure _
  | testAssociate => exact .bind (leaves_testAssociate _) fun _ => .pure _
  | testAssociation => exact .bind (leaves_testAssociation _) fun _ => .pure _
  | ensureAssociated => exact .bind leaves_ensureAssociated fun _ => .pure _
  | generatePassword => exact .bind leaves_generatePassword fun _ => .pure _
  | getLogins => exact .bind (leaves_getLogins _) fun _ => .pure _
  | findLogin => exact .bind (.bind (leaves_getLogins _) fun _ => .pure _) fun _ => .pure _
  | setLogin =>
    exact .bind (.bind leaves_ensureAssociated fun _ => .bind (leaves_roundTrip _ _ _) fun _ =>
      .pure _) fun _ => .pure _
  | getDatabaseGroups => exact .bind leaves_getDatabaseGroups fun _ => .pure _
  | createNewGroup =>
    exact .bind (.bind (leaves_privileged _ _) fun _ => .bind (leaves_requireText _ _) fun _ =>
      .bind (leaves_requireText _ _) fun _ => .pure _) fun _ => .pure _
  | getTotp => exact .bind (.bind (leaves_privileged _ _) fun _ => .pure _) fun _ => .pure _
  | deleteEntry | requestAutotype => exact .bind (leaves_privileged _ _) fun _ => .pure _
  | lockDatabase => exact leaves_lockDatabase
  | passkeysRegister | passkeysGet => exact .bind (leaves_passkeys _ _ _) fun _ => .pure _

/-- After an operation failed with a fatal error, nothing is written and no nonce is taken, whatever is
called and whatever happens around the client, and every operation that has to ask the proxy fails. The
store is any that fails with errors of a store and with no others (`CandidStore`): the ones in memory and
in a file do. -/
theorem retired_of_fatal {operation : Operation} (h : operation.call c = .error e d)
    (he : e.isFatal = true) (moves : List (Move σ)) :
    (run moves d).link.written = d.link.written ∧
      (run moves d).session.nonces = d.session.nonces ∧
      ∀ later : Operation, later.asks = true → ∃ e' d', later.call (run moves d) = .error e' d' := by
  have hspent : Spent d := leaves_call operation c e d h he
  have hstays := hspent.stays_run moves
  refine ⟨hstays.written_eq, by rw [hstays.session_eq], fun later hl => ?_⟩
  exact fails_call hl _ (hspent.of_stays hstays)

/-- The key exchange of a new client whose stream is broken fails for good. -/
theorem retired_of_fatal_broken :
    ∃ (c d : Client MemoryStore) (e : Error),
      Operation.shakeHands.call c = .error e d ∧ e.isFatal = true ∧
        ∀ moves : List (Move MemoryStore), (run moves d).link.written = d.link.written ∧
          (run moves d).session.nonces = d.session.nonces ∧
          ∀ later : Operation, later.asks = true →
            ∃ e' d', later.call (run moves d) = .error e' d' := by
  let c : Client MemoryStore :=
    (Move.proxy [] 0 (some "Broken pipe") []).apply (new 0 usual ⟨[], {}⟩ (.ofBytes []))
  have hplace : c.session.nonces.position = 0 := rfl
  obtain ⟨request, reply, session, hr⟩ := Session.exists_reserve_eq_ok (s := c.session)
    (hplace ▸ by decide)
  have hbegin : c.session.begin = (.ok (.keyExchange session.keys.publicKey request session.clientId),
      { session with handshake := .keysSent reply }) := by
    rw [Session.begin, hr]
    rfl
  have hoffer := offerKey_eq c
  rw [hbegin] at hoffer
  have hshake : Operation.shakeHands.call c = .error (.transport "Broken pipe") _ :=
    (bind_of_ok (ensureOpen_of_open rfl) _).trans (bind_of_error hoffer _)
  exact ⟨c, _, _, hshake, rfl, retired_of_fatal hshake rfl⟩

end Client

end VaultLink
