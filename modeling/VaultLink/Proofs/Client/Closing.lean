import VaultLink.Proofs.Client.Introduction
import VaultLink.Proofs.Client.Questions

/-!
# Errors that close the client

A program is candid if an open client that it closes is told so by a fatal error (`Candid`). Every
operation is, but associating: it tells a reply that stays out as a denial, which is not fatal, although
the client is closed then (`isFatal_iff_of_closed`).
-/

namespace VaultLink.Client

variable {σ α β : Type} {c d : Client σ} {e : Error} {m : Run σ α}

/-- From `c`, if it is open, a program does not close the client unless it fails with a fatal error. -/
def Candid (c : Client σ) (m : Run σ α) : Prop :=
  c.closed = false →
    match m c with
    | .ok _ d => d.closed = false
    | .error e d => d.closed = true → e.isFatal = true

/-! ## Programs -/

theorem Asks.candid {action : Action} (h : c.Asks action m) : c.Candid m := by
  intro ho
  rcases hm : m c with ⟨a, d⟩ | ⟨e, d⟩
  · exact h.closed_of_ok ho hm
  · exact h.isFatal_of_closed ho hm

theorem Quiet.candid (h : Quiet m) (c : Client σ) : c.Candid m := by
  intro ho
  have haside := h c
  rcases hm : m c with ⟨a, d⟩ | ⟨e, d⟩
  · rw [after_of_ok hm] at haside
    exact haside.closed_eq.trans ho
  · rw [after_of_error hm] at haside
    intro hd
    cases hd.symm.trans (haside.closed_eq.trans ho)

namespace Candid

theorem bind {f : α → Run σ β} (hm : c.Candid m) (hf : ∀ a d, m c = .ok a d → d.Candid (f a)) :
    c.Candid (m >>= f) := by
  intro ho
  have hcandid := hm ho
  rcases hc : m c with ⟨a, d⟩ | ⟨e, d⟩ <;> rw [hc] at hcandid
  · rw [bind_of_ok hc]
    exact hf a d hc hcandid
  · rw [bind_of_error hc]
    exact hcandid

theorem get_bind {f : Client σ → Run σ α} (h : c.Candid (f c)) : c.Candid (get >>= f) := h

theorem ensureOpen (c : Client σ) : c.Candid ensureOpen := by
  intro ho
  rw [ensureOpen_of_open ho]
  exact ho

/-! ## The key exchange and listening -/

theorem offerKey (c : Client σ) : c.Candid offerKey := by
  intro ho
  rw [offerKey_eq]
  rcases c.session.begin with ⟨e | request, session⟩ <;> simp only
  · intro hd
    cases hd.symm.trans ho
  rcases request.encode with e | bytes <;> simp only
  · intro hd
    cases hd.symm.trans ho
  rcases hl : c.link.send bytes with ⟨e | _, link⟩ <;> simp only
  · obtain ⟨text, rfl⟩ := Link.send_eq_error hl
    exact fun _ => rfl
  · exact ho

theorem takeKey (c : Client σ) : c.Candid takeKey := by
  intro ho
  obtain ⟨result, signals, link, ha, -⟩ :=
    awaitReply_cases .changePublicKeys c.config.requestTimeout c
  simp only [Client.takeKey, bind_apply, get_apply]
  cases result with
  | error e =>
    rw [tryCatch_of_error (closing_of_error ha)]
    exact fun _ => (awaitReply_eq_error ha).1
  | ok reply =>
    rw [tryCatch_of_ok (closing_of_ok ha)]
    simp only [onSession_eq]
    rcases Session.complete reply (c.heard signals link).session with ⟨e | ⟨⟩, session⟩
    · intro hd
      cases hd.symm.trans ho
    · exact ho

theorem shakeHands (c : Client σ) : c.Candid shakeHands :=
  .bind (.ensureOpen c) fun _ _ _ => .bind (.offerKey _) fun _ _ _ => .takeKey _

theorem nextEventFrom (fuel : Nat) (c : Client σ) : c.Candid (nextEventFrom fuel) := by
  induction fuel generalizing c with
  | zero => exact fun ho => ho
  | succ fuel ih =>
    intro ho
    rcases hr : c.link.receive none with ⟨received, link⟩
    rw [nextEventFrom_succ hr]
    cases received with
    | late | never => exact ho
    | failed e =>
      show (breaksStream e || c.closed) = true → e.isFatal = true
      rw [ho, Bool.or_false]
      exact Error.isFatal_of_breaksStream
    | message text =>
      simp only
      rcases Inbound.decode text with e | inbound
      · intro hd
        cases hd.symm.trans ho
      · cases inbound with
        | signal s => exact ho
        | keyExchange | encrypted | failure => exact ih { c with link } ho

theorem nextEvent (c : Client σ) : c.Candid nextEvent :=
  .bind (.ensureOpen c) fun _ d _ => .get_bind (.nextEventFrom _ d)

/-! ## The association -/

theorem testAssociate (record : Association) (c : Client σ) : c.Candid (testAssociate record) := by
  rcases hp : c.session.requirePeer with e | peer
  · intro ho
    rw [testAssociate_eq, hp]
    intro hd
    cases hd.symm.trans ho
  · exact (Asks.testAssociate hp record).candid

theorem testAssociation (databaseId : String) (c : Client σ) :
    c.Candid (testAssociation databaseId) := by
  refine .bind (Quiet.ensureEstablished.candid c) fun _ d _ => .get_bind ?_
  split
  · exact .testAssociate _ d
  · exact (Quiet.pure _).candid d

theorem currentDatabase (c : Client σ) : c.Candid currentDatabase := by
  refine .get_bind ?_
  split
  · exact (Quiet.pure _).candid c
  · exact .get_bind (Asks.getDatabaseHash _ c).candid

variable [AssociationStore σ]

theorem ensureAssociated (c : Client σ) : c.Candid ensureAssociated := by
  refine .bind (Quiet.ensureEstablished.candid c) fun _ d _ =>
    .bind (.currentDatabase d) fun hash d _ => .get_bind ?_
  split
  · refine Quiet.candid ?_ d
    exact .bind (.modify fun _ => ⟨rfl, rfl, rfl, rfl⟩) fun _ => .throw _
  refine .get_bind ?_
  split
  · exact (Quiet.pure _).candid d
  refine .bind (.testAssociate _ d) fun outcome d _ => ?_
  split
  · refine Quiet.candid ?_ d
    exact .bind (.modify fun _ => ⟨rfl, rfl, rfl, rfl⟩) fun _ => .pure _
  -- a record that was refused is removed without asking
  have hevict (cause : Estrangement) : Quiet (do
      let _ ← Client.onRegistry (Registry.evict hash)
      modify fun c : Client σ => { c with association := .notAssociated }
      throw (.notAssociated cause) : Run σ Association) :=
    .bind (.onRegistry _) fun _ => .bind (.modify fun _ => ⟨rfl, rfl, rfl, rfl⟩) fun _ => .throw _
  refine .get_bind ?_
  split
  · refine Quiet.candid ?_ d
    exact .bind (.throw _) fun _ => hevict _
  · exact (hevict _).candid d

end Candid

/-! ## Operations -/

variable [AssociationStore σ]

/-- Every operation is candid but associating. -/
theorem candid_call {operation : Operation} (h : operation ≠ .associate) (c : Client σ) :
    c.Candid operation.call := by
  have hvoid {α : Type} {m : Run σ α} (hm : c.Candid m) : c.Candid (do let _ ← m) :=
    hm.bind fun _ d _ => (Quiet.pure _).candid d
  by_cases he : operation.ensures = true
  · by_cases hne : operation = .ensureAssociated
    · subst hne
      exact hvoid (.ensureAssociated c)
    · obtain ⟨action, f, -, hf, hasks⟩ := ensuresThenAsks_call (σ := σ) he hne
      rw [hf]
      exact .bind (.ensureAssociated c) fun record d _ => (hasks record d).candid
  cases operation with
  | shakeHands => exact .shakeHands c
  | nextEvent => exact hvoid (.nextEvent c)
  | getDatabaseHash => exact hvoid (Asks.getDatabaseHash _ c).candid
  | associate => exact absurd rfl h
  | testAssociate => exact hvoid (.testAssociate _ c)
  | testAssociation => exact hvoid (.testAssociation _ c)
  | generatePassword => exact hvoid (Asks.generatePassword c).candid
  | lockDatabase => exact (Asks.lockDatabase c).candid
  | _ => exact absurd rfl he

/-- Associating closes an open client with a fatal error, or with a denial that stands for a reply that
stayed out. -/
theorem associate_eq_error_of_closed (ho : c.closed = false) (h : associate c = .error e d)
    (hd : d.closed = true) :
    e.isFatal = true ∨ ∃ cause, e = .associationDenied (.noAnswer cause) := by
  have hclosed := closed_of_roundTrip (c := c.afterFreshKey) ho .associate (associateFields c) false
  rw [associate_eq] at h
  rcases hp : c.session.requirePeer with e' | peer <;> simp only [hp] at h
  · cases h
    cases ho.symm.trans hd
  rcases hr : roundTrip .associate (associateFields c) false c.afterFreshKey with
    ⟨body, b⟩ | ⟨e', b⟩ <;> simp only [hr] at h hclosed
  · rcases hh : requireText body "hash" with e' | databaseId <;> simp only [hh] at h
    · cases h
      cases hclosed.symm.trans hd
    rcases hn : requireText body "id" with e' | name <;> simp only [hn] at h
    · cases h
      cases hclosed.symm.trans hd
    rcases hi : b.registry.insert ⟨databaseId, name, c.freshKey⟩ with ⟨e' | _, registry⟩ <;>
      simp only [hi] at h <;> cases h
    cases hclosed.symm.trans hd
  · cases h
    have hbreaks : breaksStream e' = true := hclosed.symm.trans hd
    cases e' with
    | timeout cause => exact .inr ⟨cause, rfl⟩
    | _ => exact .inl (Error.isFatal_of_breaksStream hbreaks)

/-- An error that leaves an open client closed is fatal, unless it is the denial with which associating
tells that the reply stayed out. -/
theorem isFatal_iff_of_closed {operation : Operation} (ho : c.closed = false)
    (h : operation.call c = .error e d) (hd : d.closed = true) :
    e.isFatal = true ↔
      ¬ (operation = .associate ∧ ∃ cause, e = .associationDenied (.noAnswer cause)) := by
  constructor
  · rintro hfatal ⟨-, cause, rfl⟩
    cases hfatal
  · intro hnot
    by_cases ha : operation = .associate
    · subst ha
      rcases hc : associate c with ⟨record, b⟩ | ⟨e', b⟩
      · rw [show Operation.associate.call c = .ok () b from bind_of_ok hc _] at h
        cases h
      · rw [show Operation.associate.call c = .error e' b from bind_of_error hc _] at h
        cases h
        exact (associate_eq_error_of_closed ho hc hd).resolve_right fun hdenied => hnot ⟨rfl, hdenied⟩
    · have hcandid := candid_call ha c ho
      rw [h] at hcandid
      exact hcandid hd

theorem isFatal_iff_of_closed_broken :
    ∃ (c d : Client MemoryStore) (e : Error), c.closed = false ∧
      Operation.shakeHands.call c = .error e d ∧ d.closed = true ∧ e.isFatal = true := by
  obtain ⟨c, d, ho, -, hs, hd⟩ := exists_shakeHands_broken
  have hcall : Operation.shakeHands.call c = .error (.transport "Broken pipe") d := hs
  refine ⟨c, d, _, ho, hcall, hd, (isFatal_iff_of_closed ho hcall hd).2 ?_⟩
  rintro ⟨⟨⟩, -⟩

/-- A client that asks for an association and is left without a reply is told that it was denied. -/
theorem exists_associate_silent {peer : PublicKey} {place : Nat} (h : Idle c peer place)
    (hp : place + 2 ≤ Nonce.count) :
    ∃ cause d, associate (silence.apply c) = .error (.associationDenied (.noAnswer cause)) d ∧
      d.closed = true := by
  have hmade : Idle c.afterFreshKey peer place := h.congr rfl rfl rfl rfl
  obtain ⟨wait, d, hround, -⟩ := exists_roundTrip_silent hmade hp
    (show Outbound.sendable .associate = true from rfl) (associateFields c) false
  have hstart : roundTrip .associate (associateFields (silence.apply c)) false
      (silence.apply c).afterFreshKey = _ := hround
  have hpeer : (silence.apply c).session.requirePeer = .ok peer := h.requirePeer_eq
  have hassociate := associate_eq (silence.apply c)
  simp only [hpeer, hstart] at hassociate
  exact ⟨_, _, hassociate, rfl⟩

/-- Not every error that leaves a client closed is fatal: a reply to associating that stays out closes
it, and is told as a denial. -/
theorem not_forall_isFatal_of_closed :
    ¬ ∀ (moves : List (Move MemoryStore)) (clock : Instant) (config : Config)
      (registry : Registry MemoryStore) (entropy : Entropy) (operation : Operation) (e : Error)
      (d : Client MemoryStore),
      (run moves (new clock config registry entropy)).closed = false →
      operation.call (run moves (new clock config registry entropy)) = .error e d →
      d.closed = true → e.isFatal = true := by
  intro h
  obtain ⟨first, peer, b, hb, hidle, -⟩ := exists_introduced (⟨[], {}⟩ : Registry MemoryStore)
  obtain ⟨cause, d, hassociate, hclosed⟩ := exists_associate_silent hidle (by decide)
  have h := h ([prompt [] first, .call .shakeHands] ++ [silence]) 0 usual ⟨[], {}⟩ (.ofBytes [])
    .associate (.associationDenied (.noAnswer cause)) d
  rw [run_append, hb] at h
  have hfatal := h hidle.closed_eq (bind_of_error hassociate _) hclosed
  cases hfatal

end VaultLink.Client
