import VaultLink.Proofs.Client.Standing

/-!
# Spent clients

A client is spent once it is closed, its key exchange was rejected or its nonces are used up (`Spent`).
From then on it writes nothing and takes no nonce, whatever is called and whatever happens around it
(`Spent.stays_run`), and every operation that has to ask the proxy fails (`fails_call`).
-/

namespace VaultLink

/-- The errors with which a spent client answers. -/
inductive Error.Debars : Error → Prop
  | disconnected : Debars .disconnected
  | notEstablished : Debars .notEstablished
  | handshakeFailed (cause : HandshakeFault) : Debars (.handshakeFailed cause)
  | crypto (cause : CryptoFault) : Debars (.crypto cause)

/-! ## Sessions -/

namespace Session

variable {s : Session}

/-- Nothing more can be sealed: the key exchange was rejected, or the nonces are used up. -/
def Spent (s : Session) : Prop := s.handshake = .rejected ∨ s.nonces.position = Nonce.count

theorem reserve_of_position (h : s.nonces.position = Nonce.count) :
    s.reserve = (.error (.crypto .nonceExhausted), s) := by
  rcases hd : s.nonces.draw with ⟨fault | nonce, nonces⟩
  · obtain ⟨rfl, rfl, -⟩ := Sequencer.draw_eq_error hd
    rw [reserve, hd]
    rfl
  · have hlt := nonce.toNatLE_lt
    rw [(Sequencer.draw_eq_ok hd).1, h] at hlt
    exact absurd hlt (Nat.lt_irrefl _)

theorem Spent.sealRequest (h : s.Spent) (action : Action) (fields : Json.Members)
    (triggerUnlock : Bool) :
    ∃ e, s.sealRequest action fields triggerUnlock = (.error e, s) ∧ e.Debars ∧
      Client.breaksStream e = false := by
  unfold Session.sealRequest requirePeer
  rcases hs : s.handshake with _ | _ | _ | _
  case established =>
    rcases h with h | h
    · cases hs.symm.trans h
    · simp only [reserve_of_position h]
      exact ⟨_, rfl, .crypto _, rfl⟩
  case rejected => exact ⟨_, rfl, .handshakeFailed _, rfl⟩
  case idle | keysSent => exact ⟨_, rfl, .notEstablished, rfl⟩

theorem Spent.begin (h : s.Spent) : ∃ e, s.begin = (.error e, s) := by
  unfold Session.begin
  rcases hs : s.handshake with _ | _ | _ | _
  case idle =>
    rcases h with h | h
    · cases hs.symm.trans h
    · simp only [reserve_of_position h]
      exact ⟨_, rfl⟩
  all_goals exact ⟨_, rfl⟩

end Session

/-- Whether a call of the operation cannot be answered without asking the proxy. -/
def Operation.asks : Operation → Bool
  | nextEvent | testAssociation _ | ensureAssociated => false
  | _ => true

namespace Client

variable {σ α β : Type} {b c d : Client σ}

/-- Nothing more goes out: the client is closed, or its session is spent. -/
def Spent (c : Client σ) : Prop := c.closed = true ∨ c.session.Spent

/-! ## What a spent client keeps -/

/-- From `c` to `d`, nothing was written and the session stayed, and a closed client stayed closed. -/
structure Stays (c d : Client σ) : Prop where
  session_eq : d.session = c.session
  written_eq : d.link.written = c.link.written
  closed_of_closed : c.closed = true → d.closed = true

theorem Stays.refl (c : Client σ) : Stays c c := ⟨rfl, rfl, id⟩

theorem Stays.trans (h : Stays b c) (h' : Stays c d) : Stays b d :=
  ⟨h'.1.trans h.1, h'.2.trans h.2, fun ho => h'.3 (h.3 ho)⟩

/-- Once spent, a client is spent for good. -/
theorem Spent.of_stays (h : Spent c) (hs : Stays c d) : Spent d :=
  h.imp hs.closed_of_closed fun h => hs.session_eq ▸ h

/-- A round trip of a spent client fails at once. -/
theorem Spent.roundTrip (h : Spent c) (action : Action) (fields : Json.Members)
    (triggerUnlock : Bool) :
    ∃ e, roundTrip action fields triggerUnlock c = .error e c ∧ e.Debars := by
  rcases ho : c.closed with _ | _
  · obtain ⟨e, hseal, hdebars, hopen⟩ :=
      (h.resolve_left (by simp [ho])).sealRequest action fields triggerUnlock
    have hsubmit : submit action fields triggerUnlock c = .error e c := by
      rw [submit_eq, hseal]
    rw [roundTrip_of_submit_error ho hsubmit, hopen]
    exact ⟨e, rfl, hdebars⟩
  · exact ⟨_, bind_of_error (ensureOpen_of_closed ho) _, .disconnected⟩

theorem Spent.shakeHands (h : Spent c) : ∃ e, shakeHands c = .error e c := by
  rcases ho : c.closed with _ | _
  · obtain ⟨e, hbegin⟩ := (h.resolve_left (by simp [ho])).begin
    have hoffer : offerKey c = .error e c := by
      rw [offerKey_eq, hbegin]
    exact ⟨e, (bind_of_ok (ensureOpen_of_open ho) _).trans (bind_of_error hoffer _)⟩
  · exact ⟨_, bind_of_error (ensureOpen_of_closed ho) _⟩

theorem stays_nextEventFrom (fuel : Nat) (c : Client σ) : Stays c (after (nextEventFrom fuel) c) := by
  induction fuel generalizing c with
  | zero => exact .refl c
  | succ fuel ih =>
    rcases hr : c.link.receive none with ⟨received, link⟩
    have hw : link.written = c.link.written := by cases hr; rfl
    have hread : Stays c { c with link } := ⟨rfl, hw, id⟩
    rw [after, nextEventFrom_succ hr]
    cases received with
    | late | never => exact hread
    | failed e => exact hread.trans ⟨rfl, rfl, fun ho => by simp [show c.closed = true from ho]⟩
    | message text =>
      simp only
      rcases Inbound.decode text with e | inbound
      · exact hread
      · cases inbound with
        | signal s => exact hread.trans ⟨rfl, rfl, id⟩
        | keyExchange | encrypted | failure => exact hread.trans (ih { c with link })

theorem stays_nextEvent (c : Client σ) : Stays c (after nextEvent c) := by
  rcases ho : c.closed with _ | _
  · rw [after, nextEvent, bind_of_ok (ensureOpen_of_open ho)]
    exact stays_nextEventFrom (c.link.volume + 1) c
  · rw [nextEvent, after_ensureOpen_of_closed ho]
    exact .refl c

/-! ## Programs -/

/-- A program that fails on every spent client and leaves it as it is. -/
def Debarred (m : Run σ α) : Prop := ∀ c, Spent c → ∃ e, m c = .error e c ∧ e.Debars

namespace Debarred

theorem roundTrip (action : Action) (fields : Json.Members) (triggerUnlock : Bool) :
    Debarred (roundTrip action fields triggerUnlock : Run σ Json.Members) :=
  fun _ h => h.roundTrip action fields triggerUnlock

theorem bind {m : Run σ α} (h : Debarred m) (f : α → Run σ β) : Debarred (m >>= f) := by
  intro c hc
  obtain ⟨e, hm, he⟩ := h c hc
  exact ⟨e, bind_of_error hm f, he⟩

theorem get_bind {f : Client σ → Run σ α} (h : ∀ c, Debarred (f c)) : Debarred (get >>= f) :=
  fun c hc => h c c hc

/-- Only other errors are caught. -/
theorem tryCatch {m : Run σ α} (h : Debarred m) {handle : Error → Run σ α}
    (hh : ∀ e, e.Debars → handle e = throw e) : Debarred (tryCatch m handle) := by
  intro c hc
  obtain ⟨e, hm, he⟩ := h c hc
  refine ⟨e, ?_, he⟩
  rw [tryCatch_of_error hm, hh e he]
  rfl

theorem unlessRejected (code : ErrorCode) (instead : α) {operation : Run σ α} (h : Debarred operation) :
    Debarred (unlessRejected code instead operation) :=
  h.tryCatch fun e he => by cases he <;> rfl

end Debarred

/-- A program that fails on every spent client. -/
def Fails (m : Run σ α) : Prop := ∀ c, Spent c → ∃ e d, m c = .error e d

theorem Debarred.fails {m : Run σ α} (h : Debarred m) : Fails m := by
  intro c hc
  obtain ⟨e, hm, -⟩ := h c hc
  exact ⟨e, c, hm⟩

theorem Fails.bind {m : Run σ α} (h : Fails m) (f : α → Run σ β) : Fails (m >>= f) := by
  intro c hc
  obtain ⟨e, d, hm⟩ := h c hc
  exact ⟨e, d, bind_of_error hm f⟩

theorem debarred_getDatabaseHash (triggerUnlock : Bool) :
    Debarred (getDatabaseHash triggerUnlock : Run σ String) := (Debarred.roundTrip _ _ _).bind _

theorem debarred_lockDatabase : Debarred (lockDatabase : Run σ Unit) :=
  (((Debarred.roundTrip _ _ _).bind _).tryCatch fun e he => by cases he <;> rfl).bind _

theorem Spent.testAssociate (h : Spent c) (record : Association) :
    ∃ e, testAssociate record c = .error e c := by
  obtain ⟨e, hr, he⟩ := h.roundTrip .testAssociate (checkFields record) false
  rw [testAssociate_eq]
  rcases c.session.requirePeer with e | peer
  · exact ⟨e, rfl⟩
  · simp only [hr]
    cases he <;> exact ⟨_, rfl⟩

theorem Spent.currentDatabase (h : Spent c) : after currentDatabase c = c := by
  rw [after, currentDatabase_eq]
  rcases c.databaseHash with _ | hash
  · obtain ⟨e, hget, -⟩ := debarred_getDatabaseHash c.config.triggerUnlock c h
    simp only [hget]
  · rfl

variable [AssociationStore σ]

theorem Spent.associate (h : Spent c) : ∃ e d, associate c = .error e d ∧ Stays c d := by
  have hfresh : Spent c.afterFreshKey := h
  obtain ⟨e, hr, -⟩ := hfresh.roundTrip .associate (associateFields c) false
  rw [associate_eq]
  rcases c.session.requirePeer with e | peer
  · exact ⟨e, c, rfl, .refl c⟩
  · simp only [hr]
    exact ⟨_, _, rfl, rfl, rfl, id⟩

theorem Spent.ensureAssociated (h : Spent c) : Stays c (after ensureAssociated c) := by
  have hcurrent := h.currentDatabase
  rw [after, ensureAssociated_eq]
  rcases c.session.requirePeer with e | peer
  · exact .refl c
  simp only
  rcases hc : Client.currentDatabase c with ⟨hash, d⟩ | ⟨e, d⟩
  · rw [after_of_ok hc] at hcurrent
    subst hcurrent
    simp only
    rcases d.registry.lookup hash with _ | record
    · exact ⟨rfl, rfl, id⟩
    · by_cases hv : d.association = .validated
      · simp only [if_pos hv]
        exact .refl d
      · obtain ⟨e, ht⟩ := h.testAssociate record
        simp only [if_neg hv, ht]
        exact .refl d
  · rw [after_of_error hc] at hcurrent
    exact hcurrent ▸ .refl c

/-- What has to come after making sure of the association fails. -/
theorem Fails.ensured {f : Association → Run σ α} (hf : ∀ record, Fails (f record)) :
    Fails (Client.ensureAssociated >>= f) := by
  intro c hc
  have hstays := hc.ensureAssociated
  rcases h : Client.ensureAssociated c with ⟨record, d⟩ | ⟨e, d⟩
  · rw [after_of_ok h] at hstays
    obtain ⟨e, d', hd⟩ := hf record d (hc.of_stays hstays)
    exact ⟨e, d', (bind_of_ok h f).trans hd⟩
  · exact ⟨e, d, bind_of_error h f⟩

theorem fails_privileged (action : Action) (fields : Client σ → Json.Members) :
    Fails (privileged action fields : Run σ Json.Members) :=
  .ensured fun _ => (Debarred.get_bind fun _ => .roundTrip _ _ _).fails

theorem fails_getLogins (query : LoginQuery) : Fails (getLogins query : Run σ (List LoginEntry)) :=
  .ensured fun _ => (Debarred.get_bind fun _ =>
    (Debarred.unlessRejected _ _ ((Debarred.roundTrip _ _ _).bind _)).bind _).fails

theorem fails_getDatabaseGroups : Fails (getDatabaseGroups : Run σ GroupTree) :=
  .ensured fun _ => ((Debarred.unlessRejected _ _ ((Debarred.roundTrip _ _ _).bind _)).bind _).fails

/-! ## Operations -/

theorem fails_call {operation : Operation} (h : operation.asks = true) :
    Fails (operation.call : Run σ Unit) := by
  cases operation with
  | shakeHands =>
    intro c hc
    obtain ⟨e, hs⟩ := hc.shakeHands
    exact ⟨e, c, hs⟩
  | nextEvent | testAssociation | ensureAssociated => cases h
  | getDatabaseHash => exact (debarred_getDatabaseHash _).fails.bind _
  | associate =>
    refine .bind (fun c hc => ?_) _
    obtain ⟨e, d, ha, -⟩ := hc.associate
    exact ⟨e, d, ha⟩
  | testAssociate record =>
    refine .bind (fun c hc => ?_) _
    obtain ⟨e, ht⟩ := hc.testAssociate record
    exact ⟨e, c, ht⟩
  | generatePassword => exact (((Debarred.roundTrip _ _ _).bind _).bind _).fails
  | lockDatabase => exact debarred_lockDatabase.fails
  | getLogins => exact (fails_getLogins _).bind _
  | findLogin => exact ((fails_getLogins _).bind _).bind _
  | setLogin => exact (Fails.ensured fun _ => ((Debarred.roundTrip _ _ _).bind _).fails).bind _
  | getDatabaseGroups => exact fails_getDatabaseGroups.bind _
  | createNewGroup | getTotp => exact ((fails_privileged _ _).bind _).bind _
  | deleteEntry | requestAutotype => exact (fails_privileged _ _).bind _
  | passkeysRegister | passkeysGet => exact ((fails_privileged _ _).bind _).bind _

/-- Whatever is called, a spent client stays as it is. -/
theorem Spent.stays_perform (h : Spent c) (operation : Operation) : Stays c (perform operation c) := by
  have hdebarred {α : Type} {m : Run σ α} (hm : Debarred m) : Stays c (after m c) := by
    obtain ⟨e, hc, -⟩ := hm c h
    rw [after_of_error hc]
    exact .refl c
  by_cases he : operation.ensures = true
  · obtain ⟨f, hcall, hf⟩ := ensuresFirst_call (σ := σ) he
    rw [← after_call, hcall]
    -- the relation that is kept along the way presupposes that the client is spent
    refine related_bind (R := fun c d => Spent c → Stays c d)
      (fun hb hc h => (hb h).trans (hc (h.of_stays (hb h)))) (fun h => h.ensureAssociated)
      (fun record d _ => ?_) h
    refine (hf record).related (R := fun c d => Spent c → Stays c d) (fun c _ => .refl c)
      (fun hb hc h => (hb h).trans (hc (h.of_stays (hb h)))) (fun action fields triggerUnlock c h => ?_) d
    obtain ⟨e, hr, -⟩ := h.roundTrip action fields triggerUnlock
    rw [after_of_error hr]
    exact .refl c
  cases operation with
  | shakeHands =>
    obtain ⟨e, hs⟩ := h.shakeHands
    rw [show perform .shakeHands c = c from after_of_error hs]
    exact .refl c
  | nextEvent => exact stays_nextEvent c
  | getDatabaseHash triggerUnlock => exact hdebarred (debarred_getDatabaseHash triggerUnlock)
  | associate =>
    obtain ⟨e, d, ha, hd⟩ := h.associate
    exact (show perform .associate c = d from after_of_error ha) ▸ hd
  | testAssociate record =>
    obtain ⟨e, ht⟩ := h.testAssociate record
    rw [show perform (.testAssociate record) c = c from after_of_error ht]
    exact .refl c
  | testAssociation databaseId =>
    show Stays c (after (testAssociation databaseId) c)
    rcases hl : c.registry.lookup databaseId with _ | record
    · rw [after_testAssociation_of_lookup_eq_none hl]
      exact .refl c
    · obtain ⟨e, ht⟩ := h.testAssociate record
      rw [after, testAssociation_of_lookup hl, ht]
      exact .refl c
  | generatePassword => exact hdebarred ((Debarred.roundTrip _ _ _).bind _)
  | lockDatabase => exact hdebarred debarred_lockDatabase
  | _ => exact absurd rfl he

theorem Spent.stays_apply (h : Spent c) (move : Move σ) : Stays c (move.apply c) := by
  cases move with
  | call operation => exact h.stays_perform operation
  | proxy | share => exact ⟨rfl, rfl, id⟩

/-- Whatever happens, a spent client stays as it is. -/
theorem Spent.stays_run (h : Spent c) (moves : List (Move σ)) : Stays c (run moves c) := by
  induction moves generalizing c with
  | nil => exact .refl c
  | cons move moves ih =>
    have hstays := h.stays_apply move
    exact hstays.trans (ih (h.of_stays hstays))

end Client

end VaultLink
