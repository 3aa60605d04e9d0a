import VaultLink.Proofs.Client.Fatality

/-!
# Operations that ask once

Most operations make one round trip and look at the reply (`Asks`), and those that make sure of the
association make theirs afterwards (`ensuresThenAsks_call`). Then nothing passes over the connection but
what the round trip lets pass, and its fatal errors are the operation's own. So a closed client does not
answer such a question (`Asks.of_closed`), and an open one that is closed by it says so by a fatal error
(`Asks.isFatal_of_closed`).
-/

namespace VaultLink

theorem Error.isFatal_of_breaksStream {e : Error} (h : Client.breaksStream e = true) :
    e.isFatal = true := by
  rw [isFatal_eq, h, Bool.true_or]

namespace Client

variable {σ α β : Type} {c d : Client σ} {e : Error} {m : Run σ α} {action : Action}

/-! ## Whether a round trip closes the client -/

theorem closed_after_exchange (action : Action) (fields : Json.Members) (triggerUnlock : Bool)
    (c : Client σ) : (after (exchange action fields triggerUnlock) c).closed = c.closed := by
  rcases hw : submit action fields triggerUnlock c with ⟨request, sent⟩ | ⟨e, d⟩
  · have hsent : sent.closed = c.closed := by rw [(submit_eq_ok hw).client_eq]
    obtain ⟨result, signals, link, ha, -⟩ :=
      awaitReply_cases action (timeoutFor sent.config action triggerUnlock) sent
    rw [exchange, after_bind_of_ok hw, after_bind_of_ok (get_apply sent)]
    rcases result with e | inbound
    · rw [after_bind_of_error ha]
      exact hsent
    · rw [after_bind_of_ok ha]
      rcases hset : settle action request inbound (sent.heard signals link) with ⟨body, d⟩ | ⟨e, d⟩
      · obtain ⟨reply, -, -, -, rfl⟩ := settle_eq_ok_iff.1 hset
        rw [after_of_ok hset]
        exact hsent
      · rw [after_of_error hset, settle_eq_error hset]
        exact hsent
  · rw [exchange, after_bind_of_error hw, (submit_eq_error hw).client_eq]

/-- A round trip closes an open client exactly if its error breaks the stream. -/
theorem closed_of_roundTrip (ho : c.closed = false) (action : Action) (fields : Json.Members)
    (triggerUnlock : Bool) :
    match roundTrip action fields triggerUnlock c with
    | .ok _ d => d.closed = false
    | .error e d => d.closed = breaksStream e := by
  have hkept := closed_after_exchange action fields triggerUnlock c
  rw [ho] at hkept
  rw [roundTrip, bind_of_ok (ensureOpen_of_open ho)]
  rcases hx : exchange action fields triggerUnlock c with ⟨body, d⟩ | ⟨e, d⟩
  · rw [after_of_ok hx] at hkept
    rw [closing_of_ok hx]
    exact hkept
  · rw [after_of_error hx] at hkept
    rw [closing_of_error hx]
    show (breaksStream e || d.closed) = breaksStream e
    rw [hkept, Bool.or_false]

theorem roundTrip_of_closed (hc : c.closed = true) (action : Action) (fields : Json.Members)
    (triggerUnlock : Bool) :
    roundTrip action fields triggerUnlock c = .error .disconnected c :=
  bind_of_error (ensureOpen_of_closed hc) _

/-! ## Programs -/

/-- A program that lets nothing pass over the connection. -/
def Quiet (m : Run σ α) : Prop := ∀ c, Aside c (after m c)

namespace Quiet

theorem pure (a : α) : Quiet (pure a : Run σ α) := Aside.refl

theorem throw (e : Error) : Quiet (throw e : Run σ α) := Aside.refl

theorem bind {f : α → Run σ β} (hm : Quiet m) (hf : ∀ a, Quiet (f a)) : Quiet (m >>= f) :=
  fun c => related_bind (R := Aside) Aside.trans (hm c) fun a d _ => hf a d

theorem ofExcept (result : Except Error α) : Quiet (ofExcept result : Run σ α) := by
  cases result
  · exact throw _
  · exact pure _

theorem conform (reader : Json.Conform α) (value : Json) :
    Quiet (conform reader value : Run σ α) := by
  unfold Client.conform
  split
  · exact pure _
  · exact throw _

theorem get : Quiet (get : Run σ (Client σ)) := Aside.refl

theorem modify {f : Client σ → Client σ} (h : ∀ c, Aside c (f c)) : Quiet (modify f : Run σ Unit) := h

theorem forgetDatabase : Quiet (forgetDatabase : Run σ Unit) :=
  modify fun _ => ⟨rfl, rfl, rfl, rfl⟩

theorem onRegistry (f : Registry σ → Except Error α × Registry σ) : Quiet (onRegistry f) := by
  intro c
  rw [after_onRegistry]
  exact ⟨rfl, rfl, rfl, rfl⟩

theorem ensureEstablished : Quiet (ensureEstablished : Run σ Unit) :=
  bind get fun _ => bind (ofExcept _) fun _ => pure _

end Quiet

/-- From `c`, a program makes one round trip, about an action. Nothing else passes over the connection,
and a fatal error of the round trip is that of the program. -/
def Asks (c : Client σ) (action : Action) (m : Run σ α) : Prop :=
  ∃ fields triggerUnlock,
    Aside (after (roundTrip action fields triggerUnlock) c) (after m c) ∧
    ∀ e d, roundTrip action fields triggerUnlock c = .error e d → e.isFatal = true → m c = .error e d

namespace Asks

theorem roundTrip (action : Action) (fields : Json.Members) (triggerUnlock : Bool) (c : Client σ) :
    c.Asks action (roundTrip action fields triggerUnlock) :=
  ⟨fields, triggerUnlock, .refl _, fun _ _ h _ => h⟩

theorem get_bind {f : Client σ → Run σ α} (h : c.Asks action (f c)) : c.Asks action (get >>= f) := h

theorem bind {f : α → Run σ β} (h : c.Asks action m) (hf : ∀ a, Quiet (f a)) :
    c.Asks action (m >>= f) := by
  obtain ⟨fields, triggerUnlock, haside, hfatal⟩ := h
  refine ⟨fields, triggerUnlock, ?_, fun e d hr he => bind_of_error (hfatal e d hr he) f⟩
  rcases hm : m c with ⟨a, d⟩ | ⟨e, d⟩
  · rw [after_of_ok hm] at haside
    rw [after_bind_of_ok hm]
    exact haside.trans (hf a d)
  · rw [after_of_error hm] at haside
    rw [after_bind_of_error hm]
    exact haside

/-- Errors may be dealt with quietly, but not fatal ones. -/
theorem tryCatch {handle : Error → Run σ α} (h : c.Asks action m)
    (hfatal : ∀ e, e.isFatal = true → handle e = throw e) (hquiet : ∀ e, Quiet (handle e)) :
    c.Asks action (tryCatch m handle) := by
  obtain ⟨fields, triggerUnlock, haside, hpass⟩ := h
  refine ⟨fields, triggerUnlock, ?_, fun e d hr he => ?_⟩
  · rcases hm : m c with ⟨a, d⟩ | ⟨e, d⟩
    · rw [after_of_ok hm] at haside
      rw [after_of_ok (tryCatch_of_ok hm handle)]
      exact haside
    · rw [after_of_error hm] at haside
      rw [after_tryCatch_of_error hm]
      exact haside.trans (hquiet e d)
  · rw [tryCatch_of_error (hpass e d hr he), hfatal e he]
    rfl

theorem unlessRejected (code : ErrorCode) (instead : α) (h : c.Asks action m) :
    c.Asks action (unlessRejected code instead m) := by
  refine h.tryCatch (fun e he => ?_) fun e => ?_
  · cases e with
    | rejected => cases he
    | _ => rfl
  · split
    · split
      · exact .pure _
      · exact .throw _
    · exact .throw _

/-- A closed client does not answer. -/
theorem of_closed (h : c.Asks action m) (hc : c.closed = true) : m c = .error .disconnected c := by
  obtain ⟨fields, triggerUnlock, -, hfatal⟩ := h
  exact hfatal _ _ (roundTrip_of_closed hc action fields triggerUnlock) rfl

theorem closed_of_ok (h : c.Asks action m) (ho : c.closed = false) {a : α} (hm : m c = .ok a d) :
    d.closed = false := by
  obtain ⟨fields, triggerUnlock, haside, hfatal⟩ := h
  have hclosed := closed_of_roundTrip ho action fields triggerUnlock
  rw [after_of_ok hm] at haside
  rcases hr : Client.roundTrip action fields triggerUnlock c with ⟨body, b⟩ | ⟨e, b⟩ <;>
    rw [hr] at hclosed
  · rw [after_of_ok hr] at haside
    exact haside.closed_eq.trans hclosed
  · rw [after_of_error hr] at haside
    rw [haside.closed_eq, hclosed, Bool.eq_false_iff]
    -- an error that breaks the stream would have been the program's
    intro hbreaks
    have hfailed := hfatal e b hr (Error.isFatal_of_breaksStream hbreaks)
    rw [hm] at hfailed
    cases hfailed

/-- What closes an open client is a fatal error. -/
theorem isFatal_of_closed (h : c.Asks action m) (ho : c.closed = false) (hm : m c = .error e d)
    (hd : d.closed = true) : e.isFatal = true := by
  obtain ⟨fields, triggerUnlock, haside, hfatal⟩ := h
  have hclosed := closed_of_roundTrip ho action fields triggerUnlock
  rw [after_of_error hm] at haside
  rcases hr : Client.roundTrip action fields triggerUnlock c with ⟨body, b⟩ | ⟨e', b⟩ <;>
    rw [hr] at hclosed
  · rw [after_of_ok hr] at haside
    cases hd.symm.trans (haside.closed_eq.trans hclosed)
  · rw [after_of_error hr] at haside
    have hbreaks : breaksStream e' = true := hclosed.symm.trans (haside.closed_eq.symm.trans hd)
    have hfailed := hfatal e' b hr (Error.isFatal_of_breaksStream hbreaks)
    cases hm.symm.trans hfailed
    exact Error.isFatal_of_breaksStream hbreaks

theorem getDatabaseHash (triggerUnlock : Bool) (c : Client σ) :
    c.Asks .getDatabaseHash (getDatabaseHash triggerUnlock) :=
  .bind (.roundTrip _ _ _ c) fun _ => .bind (.ofExcept _) fun _ =>
    .bind (.modify fun _ => ⟨rfl, rfl, rfl, rfl⟩) fun _ => .pure _

theorem generatePassword (c : Client σ) : c.Asks .generatePassword generatePassword := by
  refine .bind (.roundTrip _ _ _ c) fun reply => ?_
  split
  · exact .pure _
  · exact .throw _

theorem lockDatabase (c : Client σ) : c.Asks .lockDatabase lockDatabase := by
  refine .bind (.tryCatch (.bind (.roundTrip _ _ _ c) fun _ => .pure _) (fun e he => ?_) fun e => ?_)
    fun _ => .forgetDatabase
  · cases e with
    | databaseLocked | rejected => cases he
    | _ => rfl
  · split
    · exact .pure _
    · exact .pure _
    · exact .throw _

/-- Checking a record asks once the session is established. -/
theorem testAssociate {peer : PublicKey} (hp : c.session.requirePeer = .ok peer)
    (record : Association) : c.Asks .testAssociate (testAssociate record) := by
  have heq := testAssociate_eq record c
  rw [hp] at heq
  refine ⟨checkFields record, false, ?_, fun e d hr he => ?_⟩
  · rcases hr : Client.roundTrip .testAssociate (checkFields record) false c with
      ⟨body, d⟩ | ⟨e, d⟩ <;> simp only [hr] at heq
    · obtain ⟨outcome, databaseHash, association, hj, -⟩ := judgeTest_cases record body d
      rw [after_of_ok hr, after_of_ok (heq.trans hj)]
      exact ⟨rfl, rfl, rfl, rfl⟩
    · rw [after_of_error hr, after, heq]
      cases e <;> exact .refl d
  · simp only [hr] at heq
    cases e with
    | notAssociated => cases he
    | _ => exact heq

end Asks

/-! ## Operations that make sure of the association -/

variable [AssociationStore σ]

/-- A program that makes sure of the association and then asks for what requires it. -/
def EnsuresThenAsks (m : Run σ α) : Prop :=
  ∃ (action : Action) (f : Association → Run σ α), action.requiresAssociation = true ∧
    m = ensureAssociated >>= f ∧ ∀ record (c : Client σ), c.Asks action (f record)

namespace EnsuresThenAsks

theorem bind {f : α → Run σ β} (h : EnsuresThenAsks m) (hf : ∀ a, Quiet (f a)) :
    EnsuresThenAsks (m >>= f) := by
  obtain ⟨action, g, ha, rfl, hg⟩ := h
  exact ⟨action, fun record => g record >>= f, ha, bind_assoc _ _ _,
    fun record c => (hg record c).bind hf⟩

theorem privileged (h : action.requiresAssociation = true) (fields : Client σ → Json.Members) :
    EnsuresThenAsks (privileged action fields) :=
  ⟨action, _, h, rfl, fun _ c => .get_bind (.roundTrip _ _ _ c)⟩

theorem getLogins (query : LoginQuery) :
    EnsuresThenAsks (getLogins query : Run σ (List LoginEntry)) := by
  refine ⟨.getLogins, _, rfl, rfl, fun _ c => .get_bind (.bind (.unlessRejected _ _ ?_) fun entries => ?_)⟩
  · exact .bind (.roundTrip _ _ _ c) fun _ => .pure _
  · split
    · exact .pure _
    · exact .conform _ _

theorem getDatabaseGroups : EnsuresThenAsks (getDatabaseGroups : Run σ GroupTree) := by
  refine ⟨.getDatabaseGroups, _, rfl, rfl, fun _ c => .bind (.unlessRejected _ _ ?_) fun groups => ?_⟩
  · exact .bind (.roundTrip _ _ _ c) fun _ => .pure _
  · split
    · exact .pure _
    · exact .bind (.conform _ _) fun _ => .pure _

theorem passkeys (h : action.requiresAssociation = true) (publicKey : Json) (origin : String) :
    EnsuresThenAsks (passkeys action publicKey origin : Run σ Json) := by
  refine .bind (.privileged h _) fun reply => ?_
  split
  · exact .pure _
  · exact .throw _

end EnsuresThenAsks

/-- An operation that makes sure of the association for more than its own sake asks afterwards. -/
theorem ensuresThenAsks_call {operation : Operation} (h : operation.ensures = true)
    (hne : operation ≠ .ensureAssociated) : EnsuresThenAsks (operation.call : Run σ Unit) := by
  cases operation with
  | ensureAssociated => exact absurd rfl hne
  | getLogins => exact .bind (.getLogins _) fun _ => .pure _
  | findLogin => exact .bind (.bind (.getLogins _) fun _ => .pure _) fun _ => .pure _
  | setLogin =>
    exact .bind ⟨.setLogin, _, rfl, rfl, fun _ c => .bind (.roundTrip _ _ _ c) fun _ => .pure _⟩
      fun _ => .pure _
  | getDatabaseGroups => exact .bind .getDatabaseGroups fun _ => .pure _
  | createNewGroup =>
    exact .bind (.bind (.privileged rfl _) fun _ => .bind (.ofExcept _) fun _ =>
      .bind (.ofExcept _) fun _ => .pure _) fun _ => .pure _
  | getTotp => exact .bind (.bind (.privileged rfl _) fun _ => .pure _) fun _ => .pure _
  | deleteEntry | requestAutotype => exact .bind (.privileged rfl _) fun _ => .pure _
  | passkeysRegister | passkeysGet => exact .bind (.passkeys rfl _ _) fun _ => .pure _
  | _ => cases h

end Client

end VaultLink
