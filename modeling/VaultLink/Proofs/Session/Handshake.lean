import VaultLink.Proofs.Session.Opening
import VaultLink.Proofs.Session.Registers

/-!
# The key exchange as a machine

What one call does to the key exchange (`Turn`, `turn_perform`), and what holds of a session's
registers after any row of calls (`Registers.Lawful`, `lawful_after`): there is a nonce to wait for
exactly while the keys are sent, and it is the one after that of the key exchange that was sent; there
is a peer exactly when the session is established; the two last phases are never left; and only an
acceptable reply establishes a session.
-/

namespace VaultLink

theorem PublicKey.ofBytes_eq_ok_iff {bytes : Bytes} {key : PublicKey} :
    PublicKey.ofBytes bytes = .ok key ↔ bytes = key.bytes := by
  unfold PublicKey.ofBytes PublicKey.bytes
  rw [← FixedBytes.ofBytes?_eq_some_iff]
  rcases FixedBytes.ofBytes? 32 bytes with _ | point
  · exact iff_of_false nofun nofun
  · constructor
    · rintro ⟨⟩
      rfl
    · rintro ⟨⟩
      rfl

namespace Session

/-- The nonce of an answer that is the client's public key. -/
def Answer.keyExchange? : Answer → Option Nonce
  | envelope (.keyExchange _ nonce _) _ => some nonce
  | _ => none

/-- The nonces of the key exchanges among some answers. -/
def keyExchanges (answers : List Answer) : List Nonce := answers.filterMap Answer.keyExchange?

/-- What a session checks of a reply to its key exchange, in this order. -/
theorem acceptKeyExchange_keyExchange (s : Session) (expected : Nonce) (reply : KeyExchangeReply) :
    s.acceptKeyExchange expected (.keyExchange reply) =
      if reply.success = false then .error .refused
      else if reply.nonce ≠ expected then .error .strayNonce
      else match reply.publicKey with
        | none => .error .noPublicKey
        | some bytes =>
          match PublicKey.ofBytes bytes with
          | .error fault => .error (.badPublicKey fault)
          | .ok peer =>
            if peer = s.keys.publicKey then .error .echoedKey else .ok (peer, reply.version) := by
  obtain ⟨success, publicKey, version, nonce⟩ := reply
  simp only [acceptKeyExchange, pure_bind]
  cases success
  · rfl
  · by_cases hn : nonce = expected
    · cases publicKey with
      | none => simp only [hn, ne_eq, not_true_eq_false, if_false]; rfl
      | some bytes =>
        simp only [hn, ne_eq, not_true_eq_false, if_false]
        rcases PublicKey.ofBytes bytes with fault | peer
        · rfl
        · by_cases hp : peer = s.keys.publicKey
          · simp only [hp, if_true]; rfl
          · simp only [hp, if_false]; rfl
    · simp only [ne_eq, hn, not_false_eq_true, if_true]
      rfl

theorem acceptKeyExchange_eq_ok_iff {s : Session} {expected : Nonce} {answer : Inbound}
    {peer : PublicKey} {version : Option String} :
    s.acceptKeyExchange expected answer = .ok (peer, version) ↔
      ∃ reply, answer = .keyExchange reply ∧ reply.success = true ∧ reply.nonce = expected ∧
        reply.publicKey = some peer.bytes ∧ peer ≠ s.keys.publicKey ∧ reply.version = version := by
  constructor
  · intro h
    cases answer with
    | keyExchange reply =>
      rw [acceptKeyExchange_keyExchange] at h
      split at h
      · cases h
      rename_i hs
      split at h
      · cases h
      rename_i hn
      split at h
      · cases h
      rename_i bytes hk
      split at h
      · cases h
      rename_i key hb
      split at h
      · cases h
      rename_i hp
      cases h
      refine ⟨reply, rfl, eq_true_of_ne_false hs, Decidable.not_not.1 hn, ?_, hp, rfl⟩
      rw [hk, PublicKey.ofBytes_eq_ok_iff.1 hb]
    | encrypted | failure | signal => cases h
  · rintro ⟨reply, rfl, hs, hn, hk, hp, hv⟩
    have hb := PublicKey.ofBytes_eq_ok_iff.2 (rfl : peer.bytes = peer.bytes)
    simp only [acceptKeyExchange_keyExchange, hs, hn, hk, hb, hv, if_neg hp, Bool.true_eq_false,
      ne_eq, not_true_eq_false, if_false]

/-- The reply that establishes a session whose public key is `own` and whose key exchange had the nonce
`request`: a success under the next nonce, with a key of 32 bytes that is not the session's. -/
structure Accepts (own : PublicKey) (request : Nonce) (reply : KeyExchangeReply) (peer : PublicKey) :
    Prop where
  success : reply.success = true
  nonce_eq : request.increment = some reply.nonce
  publicKey_eq : reply.publicKey = some peer.bytes
  length_eq : peer.bytes.length = 32
  ne_own : peer.bytes ≠ own.bytes

theorem accepts_iff {s : Session} {request expected : Nonce} (h : request.increment = some expected)
    {answer : Inbound} {peer : PublicKey} {version : Option String} :
    s.acceptKeyExchange expected answer = .ok (peer, version) ↔
      ∃ reply, answer = .keyExchange reply ∧ Accepts s.keys.publicKey request reply peer ∧
        reply.version = version := by
  rw [acceptKeyExchange_eq_ok_iff]
  constructor
  · rintro ⟨reply, ha, hs, hn, hk, hp, hv⟩
    have hbytes : peer.bytes ≠ s.keys.publicKey.bytes := fun he =>
      hp (congrArg PublicKey.mk (FixedBytes.ext he))
    exact ⟨reply, ha, ⟨hs, hn ▸ h, hk, peer.point.length_bytes, hbytes⟩, hv⟩
  · rintro ⟨reply, ha, ⟨hs, hn, hk, -, hp⟩, hv⟩
    refine ⟨reply, ha, hs, ?_, hk, fun he => hp (congrArg PublicKey.bytes he), hv⟩
    exact Option.some.inj (hn.symm.trans h)

/-! ## One call -/

/-- What a call with its answer makes of a session's key exchange. -/
inductive Turn (s : Session) : Call → Answer → Handshake → Prop
  /-- The public key goes out. -/
  | offers {request reply : Nonce} : s.handshake = .idle → request.increment = some reply →
    Turn s .begin (.envelope (.keyExchange s.keys.publicKey request s.clientId) (some reply))
      (.keysSent reply)
  /-- An answer is accepted. -/
  | accepts {expected : Nonce} {answer : Inbound} {peer : PublicKey} {version : Option String} :
    s.handshake = .keysSent expected → s.acceptKeyExchange expected answer = .ok (peer, version) →
    Turn s (.complete answer) .done (.established peer version)
  /-- An answer is refused. -/
  | refuses {expected : Nonce} {answer : Inbound} {cause : HandshakeFault} :
    s.handshake = .keysSent expected → s.acceptKeyExchange expected answer = .error cause →
    Turn s (.complete answer) (.failed (.handshakeFailed cause)) .rejected
  /-- The key exchange is given up. -/
  | givesUp : s.phase ≠ .established → Turn s .reject .done .rejected
  /-- An established session is not given up. -/
  | holds : s.phase = .established → Turn s .reject .done s.handshake
  /-- A call that needs another phase, or nonces that there are not. -/
  | fails {call : Call} {e : Error} : (∀ answer, call = .complete answer → s.phase ≠ .keysSent) →
    Turn s call (.failed e) s.handshake
  /-- A request is sealed. -/
  | seals {action : Action} {fields : Json.Members} {triggerUnlock : Bool} {box : Bytes}
    {nonce : Nonce} {reserved : Option Nonce} : s.phase = .established →
    Turn s (.sealRequest action fields triggerUnlock)
      (.envelope (.encrypted action box nonce s.clientId triggerUnlock) reserved) s.handshake
  /-- A reply is opened. -/
  | opens {reply : BoxedReply} {expected : Nonce} {members : Json.Members} :
    s.phase = .established → Turn s (.openReply reply expected) (.opened members) s.handshake

theorem phase_of_handshake {s : Session} {peer : PublicKey} {version : Option String}
    (h : s.handshake = .established peer version) : s.phase = .established := by
  rw [phase, h]
  rfl

/-- A request is sealed for a peer. -/
theorem phase_of_sealRequest {s t : Session} {action : Action} {fields : Json.Members}
    {triggerUnlock : Bool} {request : SealedRequest}
    (h : s.sealRequest action fields triggerUnlock = (.ok request, t)) : s.phase = .established := by
  unfold sealRequest at h
  rcases hp : s.requirePeer with e | peer <;> rw [hp] at h
  · cases h
  · obtain ⟨version, hs⟩ := requirePeer_eq_ok hp
    exact phase_of_handshake hs

theorem turn_begin (s : Session) :
    Turn s .begin (Call.begin.perform s).1 (Call.begin.perform s).2.handshake := by
  obtain ⟨clientId, keys, handshake, nonces⟩ := s
  cases handshake with
  | idle =>
    simp only [Call.perform, Session.begin]
    rcases hr : reserve ⟨clientId, keys, .idle, nonces⟩ with ⟨e | ⟨request, reply⟩, t⟩
    · obtain ⟨-, rest, rfl⟩ := reserve_eq_error hr
      exact .fails fun _ h => (by cases h)
    · obtain ⟨⟨-, hn, -⟩, rest, rfl⟩ := reserve_eq_ok hr
      exact .offers rfl hn
  | keysSent | established | rejected => exact .fails fun _ h => (by cases h)

theorem turn_complete (answer : Inbound) (s : Session) :
    Turn s (.complete answer) ((Call.complete answer).perform s).1
      ((Call.complete answer).perform s).2.handshake := by
  have hother (hs : s.phase ≠ .keysSent) : ∀ answer', Call.complete answer = .complete answer' →
      s.phase ≠ .keysSent := fun _ _ => hs
  obtain ⟨clientId, keys, handshake, nonces⟩ := s
  cases handshake with
  | keysSent expected =>
    simp only [Call.perform, complete]
    rcases ha : acceptKeyExchange ⟨clientId, keys, .keysSent expected, nonces⟩ expected answer with
      cause | ⟨peer, version⟩
    · exact .refuses rfl ha
    · exact .accepts rfl ha
  | idle | established | rejected => exact .fails (hother fun h => (by cases h))

theorem turn_reject (s : Session) : Turn s .reject .done s.reject.handshake := by
  obtain ⟨clientId, keys, handshake, nonces⟩ := s
  cases handshake with
  | established => exact .holds rfl
  | idle | keysSent | rejected => exact .givesUp nofun

/-- Every call is such a turn. -/
theorem turn_perform (call : Call) (s : Session) :
    Turn s call (call.perform s).1 (call.perform s).2.handshake := by
  cases call with
  | begin => exact turn_begin s
  | complete answer => exact turn_complete answer s
  | reject => exact turn_reject s
  | sealRequest action fields triggerUnlock =>
    simp only [Call.perform]
    rcases hs : s.sealRequest action fields triggerUnlock with ⟨e | ⟨envelope, replyNonce⟩, t⟩
    · obtain ⟨-, nonces, rfl⟩ := sealRequest_eq_error hs
      exact .fails fun _ h => (by cases h)
    · obtain ⟨-, ⟨nonces, rfl⟩, box, nonce, rfl⟩ := sealRequest_eq_ok hs
      exact .seals (phase_of_sealRequest hs)
  | openReply reply expected =>
    simp only [Call.perform]
    rcases ho : s.openReply reply expected with e | members
    · exact .fails fun _ h => (by cases h)
    · obtain ⟨peer, version, -, hs, -⟩ := openReply_eq_ok_iff.1 ho
      exact .opens (phase_of_handshake hs)

/-! ## Any row of calls -/

/-- The nonce that the key exchange waits for is the one after that of the only key exchange among the
answers so far; an idle session sent none. -/
def Awaits (past : List Answer) : Handshake → Prop
  | .idle => keyExchanges past = []
  | .keysSent reply => ∃ request, keyExchanges past = [request] ∧ request.increment = some reply
  | .established .. | .rejected => True

theorem keyExchanges_snoc (past : List Answer) (answer : Answer) :
    keyExchanges (past ++ [answer]) = keyExchanges past ++ answer.keyExchange?.toList := by
  cases h : answer.keyExchange? <;> simp [keyExchanges, h]

theorem awaits_snoc {past : List Answer} {answer : Answer} {handshake : Handshake}
    (h : Awaits past handshake) (ha : answer.keyExchange? = none) :
    Awaits (past ++ [answer]) handshake := by
  cases handshake with
  | idle | keysSent =>
    simpa only [Awaits, keyExchanges_snoc, ha, Option.toList_none, List.append_nil] using h
  | established | rejected => trivial

/-- A turn keeps the nonce that is waited for in step with the answers. -/
theorem Turn.awaits {s : Session} {past : List Answer} {call : Call} {answer : Answer}
    {handshake : Handshake} (h : Turn s call answer handshake) (ha : Awaits past s.handshake) :
    Awaits (past ++ [answer]) handshake := by
  cases h with
  | @offers request reply hi hn =>
    rw [hi] at ha
    have hnone : keyExchanges past = [] := ha
    exact ⟨request, by rw [keyExchanges_snoc, hnone]; rfl, hn⟩
  | accepts | refuses | givesUp => trivial
  | holds | fails | seals | opens => exact awaits_snoc ha rfl

theorem awaits_after {past : List Answer} {s : Session} (h : Awaits past s.handshake)
    (calls : List Call) : Awaits (past ++ answers calls s) (s.after calls).handshake := by
  induction calls generalizing past s with
  | nil => rwa [answers, List.append_nil]
  | cons call calls ih =>
    have := ih ((turn_perform call s).awaits h)
    rwa [List.append_assoc] at this

/-- The last two phases, which are never left. -/
def IsFinal (phase : Phase) : Prop := phase = .established ∨ phase = .rejected

theorem Turn.eq_of_isFinal {s : Session} {call : Call} {answer : Answer} {handshake : Handshake}
    (h : Turn s call answer handshake) (hs : IsFinal s.phase) : handshake = s.handshake := by
  cases h with
  | offers hi | accepts hi | refuses hi =>
    rw [phase, hi] at hs
    rcases hs with hs | hs <;> cases hs
  | givesUp hn =>
    have hr : s.phase = .rejected := hs.resolve_left hn
    unfold phase at hr
    cases hh : s.handshake <;> rw [hh] at hr <;> first | rfl | cases hr
  | holds | fails | seals | opens => rfl

theorem after_of_isFinal {s : Session} (hs : IsFinal s.phase) (calls : List Call) :
    (s.after calls).handshake = s.handshake := by
  induction calls generalizing s with
  | nil => rfl
  | cons call calls ih =>
    have ht : (call.perform s).2.handshake = s.handshake := (turn_perform call s).eq_of_isFinal hs
    have hf : IsFinal (call.perform s).2.phase := by rwa [phase, ht]
    exact (ih hf).trans ht

/-- What the registers say of the key exchange is the session's. -/
theorem registers_of_handshake_eq {s t : Session} (h : t.handshake = s.handshake) :
    t.registers.phase = s.registers.phase ∧ t.registers.peer? = s.registers.peer? ∧
      t.registers.version? = s.registers.version? := by
  simp only [registers, phase, peer?, version?, h, and_self]

/-- Whether a call is about a box and not about the key exchange. -/
def Call.isBox : Call → Bool
  | sealRequest .. | openReply .. => true
  | _ => false

namespace Registers

/-- What holds of a session's registers after calls that were answered like this. -/
structure Lawful (past : List Answer) (r : Registers) : Prop where
  /-- There is a nonce to wait for exactly while the keys are sent. -/
  keysSent_iff : r.phase = .keysSent ↔ r.pendingReply?.isSome = true
  /-- It is the one after the nonce of the one key exchange that went out. -/
  pendingReply_eq : ∀ reply, r.pendingReply? = some reply →
    ∃ request, keyExchanges past = [request] ∧ request.increment = some reply
  /-- There is a peer exactly if the session is established. -/
  established_iff : r.phase = .established ↔ r.peer?.isSome = true
  /-- An established or rejected session stays so, with the same peer and the same version. -/
  lasts : IsFinal r.phase → ∀ calls, (r.after calls).phase = r.phase ∧
    (r.after calls).peer? = r.peer? ∧ (r.after calls).version? = r.version?
  /-- Only an acceptable reply to the key exchange that went out establishes the session. -/
  establishes : ∀ call, r.phase ≠ .established → (r.perform call).2.phase = .established →
    r.phase = .keysSent ∧ ∃ reply request peer, call = .complete (.keyExchange reply) ∧
      keyExchanges past = [request] ∧ Accepts r.keys.publicKey request reply peer ∧
      (r.perform call).2.peer? = some peer ∧ (r.perform call).2.version? = reply.version
  /-- Every other answer to it rejects the session. -/
  rejects : ∀ answer, r.phase = .keysSent →
    (∀ reply request peer, answer = .keyExchange reply → keyExchanges past = [request] →
      ¬ Accepts r.keys.publicKey request reply peer) →
    (r.perform (.complete answer)).2.phase = .rejected
  /-- Boxes are made and opened in an established session only, and leave the key exchange alone. -/
  boxes : ∀ call, call.isBox = true →
    ((∀ e, (r.perform call).1 ≠ .failed e) → r.phase = .established) ∧
    (r.perform call).2.phase = r.phase ∧ (r.perform call).2.peer? = r.peer? ∧
      (r.perform call).2.version? = r.version?

end Registers

variable {s : Session} {past : List Answer}

theorem exists_request (h : Awaits past s.handshake) {expected : Nonce}
    (hk : s.handshake = .keysSent expected) :
    ∃ request, keyExchanges past = [request] ∧ request.increment = some expected := by
  rwa [hk] at h

theorem establishes_of_awaits (h : Awaits past s.handshake) {call : Call}
    (hs : s.phase ≠ .established) (he : (call.perform s).2.phase = .established) :
    s.phase = .keysSent ∧ ∃ reply request peer, call = .complete (.keyExchange reply) ∧
      keyExchanges past = [request] ∧ Accepts s.keys.publicKey request reply peer ∧
      (call.perform s).2.peer? = some peer ∧ (call.perform s).2.version? = reply.version := by
  have ht := turn_perform call s
  unfold phase at he
  simp only [peer?, version?]
  generalize (call.perform s).1 = answer at ht
  generalize (call.perform s).2.handshake = handshake at ht he ⊢
  cases ht with
  | accepts hk ha =>
    obtain ⟨request, hr, hn⟩ := exists_request h hk
    obtain ⟨reply, rfl, hacc, hv⟩ := (accepts_iff hn).1 ha
    exact ⟨by rw [phase, hk]; rfl, reply, request, _, rfl, hr, hacc, rfl, hv.symm⟩
  | offers | refuses | givesUp => cases he
  | holds | fails | seals | opens => exact absurd he hs

theorem rejects_of_awaits (h : Awaits past s.handshake) {answer : Inbound} (hs : s.phase = .keysSent)
    (ha : ∀ reply request peer, answer = .keyExchange reply → keyExchanges past = [request] →
      ¬ Accepts s.keys.publicKey request reply peer) :
    ((Call.complete answer).perform s).2.phase = .rejected := by
  have ht := turn_perform (.complete answer) s
  rw [phase]
  generalize ((Call.complete answer).perform s).1 = outcome at ht
  generalize ((Call.complete answer).perform s).2.handshake = handshake at ht ⊢
  cases ht with
  | accepts hk hacc =>
    obtain ⟨request, hr, hn⟩ := exists_request h hk
    obtain ⟨reply, rfl, hacc, -⟩ := (accepts_iff hn).1 hacc
    exact absurd hacc (ha reply request _ rfl hr)
  | refuses => rfl
  | fails hne => exact absurd hs (hne answer rfl)

theorem boxes_perform {call : Call} (hc : call.isBox = true) (s : Session) :
    ((∀ e, (call.perform s).1 ≠ .failed e) → s.phase = .established) ∧
      (call.perform s).2.handshake = s.handshake := by
  have ht := turn_perform call s
  generalize (call.perform s).1 = answer at ht ⊢
  generalize (call.perform s).2.handshake = handshake at ht ⊢
  cases ht with
  | offers | accepts | refuses | givesUp | holds => cases hc
  | @fails _ e => exact ⟨fun hne => absurd rfl (hne e), rfl⟩
  | seals hs | opens hs => exact ⟨fun _ => hs, rfl⟩

theorem lawful_registers (h : Awaits past s.handshake) : s.registers.Lawful past where
  keysSent_iff := by
    obtain ⟨clientId, keys, handshake, nonces⟩ := s
    cases handshake with
    | keysSent => exact iff_of_true rfl rfl
    | idle | established | rejected => exact iff_of_false nofun nofun
  pendingReply_eq reply hp := by
    obtain ⟨clientId, keys, handshake, nonces⟩ := s
    cases handshake with
    | keysSent => cases hp; exact h
    | idle | established | rejected => cases hp
  established_iff := by
    obtain ⟨clientId, keys, handshake, nonces⟩ := s
    cases handshake with
    | established => exact iff_of_true rfl rfl
    | idle | keysSent | rejected => exact iff_of_false nofun nofun
  lasts hf calls := by
    rw [after_registers]
    exact registers_of_handshake_eq (after_of_isFinal hf calls)
  establishes call := by
    rw [perform_registers]
    exact establishes_of_awaits h
  rejects answer := by
    rw [perform_registers]
    exact rejects_of_awaits h
  boxes call hc := by
    rw [perform_registers]
    obtain ⟨ho, hh⟩ := boxes_perform hc s
    exact ⟨ho, registers_of_handshake_eq hh⟩

/-- After every row of calls, from whatever entropy, the registers of a session are lawful, whether
they are the session's or written one by one. -/
theorem lawful_after (clientId : Option String) (entropy : Entropy) (calls : List Call) :
    let s := start clientId entropy
    s.registers.after calls = (s.after calls).registers ∧
      s.registers.answers calls = answers calls s ∧
      (s.registers.after calls).Lawful (s.registers.answers calls) := by
  intro s
  have hidle : s.handshake = .idle := by
    cases clientId <;> rfl
  have hstart : Awaits [] s.handshake := by
    rw [hidle]
    rfl
  rw [after_registers, answers_registers]
  exact ⟨rfl, rfl, lawful_registers (awaits_after hstart calls)⟩

end Session

end VaultLink
