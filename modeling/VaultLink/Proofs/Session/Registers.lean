import VaultLink.Proofs.Session.Reservation
import VaultLink.Proofs.Session.Run

/-!
# A session by its registers

A session keeps its phase, the nonce that it waits for, its peer and the peer's version as one value,
so that they cannot disagree. Here they stand apart (`Session.Registers`), each free to hold anything,
and every call reads and writes them one by one: a nonce is checked only if there is one to wait for,
and even an established session looks whether it has a peer. Both machines give the same answers and go
through the same states (`perform_registers`, `answers_registers`, `after_registers`).
-/

namespace VaultLink.Session

/-- The session after a row of calls. -/
def after (s : Session) (calls : List Call) : Session :=
  calls.foldl (fun s call => (call.perform s).2) s

/-- A session with the parts of its key exchange apart. -/
structure Registers where
  clientId : String
  keys : KeyPair
  nonces : Sequencer
  phase : Phase
  pendingReply? : Option Nonce
  peer? : Option PublicKey
  version? : Option String
  deriving DecidableEq

/-- The registers of a session. -/
def registers (s : Session) : Registers :=
  ⟨s.clientId, s.keys, s.nonces, s.phase, s.pendingReply?, s.peer?, s.version?⟩

namespace Registers

variable (r : Registers)

/-- A session with what the registers hold apart from the key exchange. -/
def toSession (handshake : Handshake) : Session := ⟨r.clientId, r.keys, handshake, r.nonces⟩

/-- Starts the key exchange. -/
def begin : Except Error Outbound × Registers :=
  if r.phase = .idle then
    match (r.toSession .idle).reserve with
    | (.error e, s) => (.error e, { r with nonces := s.nonces })
    | (.ok (request, reply), s) =>
      (.ok (.keyExchange r.keys.publicKey request r.clientId),
        { r with nonces := s.nonces, pendingReply? := some reply, phase := .keysSent })
  else (.error (.protocol (.keyExchangeStarted r.phase)), r)

/-- The proxy's key and version in its reply to the key exchange, whose nonce is checked if one is
expected. -/
def acceptKeyExchange (expected : Option Nonce) (reply : Inbound) :
    Except HandshakeFault (PublicKey × Option String) := do
  let reply ← match reply with
    | .keyExchange reply => pure reply
    | .failure f => throw (.proxyError f.code f.message)
    | other => throw (.unexpectedReply other.action)
  if !reply.success then throw .refused
  if let some nonce := expected then
    if reply.nonce ≠ nonce then throw .strayNonce
  let bytes ← match reply.publicKey with
    | some bytes => pure bytes
    | none => throw .noPublicKey
  match PublicKey.ofBytes bytes with
  | .error fault => throw (.badPublicKey fault)
  | .ok peer =>
    if peer = r.keys.publicKey then throw .echoedKey
    return (peer, reply.version)

/-- Takes the reply to the key exchange, after which none is expected any more. -/
def complete (reply : Inbound) : Except Error Unit × Registers :=
  if r.phase = .keysSent then
    let taken : Registers := { r with pendingReply? := none }
    match r.acceptKeyExchange r.pendingReply? reply with
    | .ok (peer, version) =>
      (.ok (), { taken with peer? := some peer, version? := version, phase := .established })
    | .error cause => (.error (.handshakeFailed cause), { taken with phase := .rejected })
  else (.error (.protocol (.noKeyExchange r.phase)), r)

/-- Gives the key exchange up. -/
def reject : Registers :=
  if r.phase = .established then r else { r with pendingReply? := none, phase := .rejected }

/-- The proxy's key, or why there is none. -/
def requirePeer : Except Error PublicKey :=
  match r.phase with
  | .established =>
    match r.peer? with
    | some peer => .ok peer
    | none => .error .notEstablished
  | .rejected => .error (.handshakeFailed .alreadyRejected)
  | .idle | .keysSent => .error .notEstablished

/-- Puts a request into a box for the peer. -/
def sealRequest (action : Action) (fields : Json.Members) (triggerUnlock : Bool) :
    Except Error SealedRequest × Registers :=
  match r.requirePeer with
  | .error e => (.error e, r)
  | .ok peer =>
    let (result, s) :=
      (r.toSession (.established peer r.version?)).sealRequest action fields triggerUnlock
    (result, { r with nonces := s.nonces })

/-- Opens a box of the peer. -/
def openReply (reply : BoxedReply) (expected : Nonce) : Except Error Json.Members :=
  match r.requirePeer with
  | .error e => .error e
  | .ok peer => (r.toSession (.established peer r.version?)).openReply reply expected

/-- The answer to a call, and the registers after it. -/
def perform : Call → Answer × Registers
  | .begin =>
    match r.begin with
    | (.ok message, t) => (.envelope message t.pendingReply?, t)
    | (.error e, t) => (.failed e, t)
  | .complete reply =>
    match r.complete reply with
    | (.ok (), t) => (.done, t)
    | (.error e, t) => (.failed e, t)
  | .reject => (.done, r.reject)
  | .sealRequest action fields triggerUnlock =>
    match r.sealRequest action fields triggerUnlock with
    | (.ok request, t) => (.envelope request.envelope (some request.replyNonce), t)
    | (.error e, t) => (.failed e, t)
  | .openReply reply expected =>
    match r.openReply reply expected with
    | .ok members => (.opened members, r)
    | .error e => (.failed e, r)

/-- The answers to a row of calls. -/
def answers (r : Registers) : List Call → List Answer
  | [] => []
  | call :: calls => (r.perform call).1 :: (r.perform call).2.answers calls

/-- The registers after a row of calls. -/
def after (calls : List Call) : Registers :=
  calls.foldl (fun r call => (r.perform call).2) r

end Registers

/-! ## The same machine -/

variable (s : Session)

theorem begin_registers : s.registers.begin = (s.begin.1, s.begin.2.registers) := by
  obtain ⟨clientId, keys, handshake, nonces⟩ := s
  cases handshake with
  | idle =>
    simp only [Registers.begin, Session.begin, registers, phase, Handshake.phase, if_true,
      Registers.toSession]
    rcases hr : reserve ⟨clientId, keys, .idle, nonces⟩ with ⟨_ | ⟨request, reply⟩, t⟩
    · obtain ⟨-, rest, rfl⟩ := reserve_eq_error hr
      rfl
    · obtain ⟨-, rest, rfl⟩ := reserve_eq_ok hr
      rfl
  | keysSent | established | rejected => rfl

theorem acceptKeyExchange_registers (expected : Nonce) (reply : Inbound) :
    s.registers.acceptKeyExchange (some expected) reply = s.acceptKeyExchange expected reply := rfl

theorem complete_registers (reply : Inbound) :
    s.registers.complete reply = ((s.complete reply).1, (s.complete reply).2.registers) := by
  obtain ⟨clientId, keys, handshake, nonces⟩ := s
  cases handshake with
  | keysSent expected =>
    have ha := acceptKeyExchange_registers ⟨clientId, keys, .keysSent expected, nonces⟩ expected reply
    simp only [Registers.complete, complete, registers, phase, Handshake.phase, if_true,
      pendingReply?] at ha ⊢
    rw [ha]
    rcases acceptKeyExchange ⟨clientId, keys, .keysSent expected, nonces⟩ expected reply with
      _ | ⟨peer, version⟩ <;> rfl
  | idle | established | rejected => rfl

theorem reject_registers : s.registers.reject = s.reject.registers := by
  obtain ⟨clientId, keys, handshake, nonces⟩ := s
  cases handshake <;> rfl

theorem requirePeer_registers : s.registers.requirePeer = s.requirePeer := by
  obtain ⟨clientId, keys, handshake, nonces⟩ := s
  cases handshake <;> rfl

/-- With a peer, the registers hold a session that is established with it. -/
theorem toSession_of_requirePeer {peer : PublicKey} (h : s.requirePeer = .ok peer) :
    s.registers.toSession (.established peer s.registers.version?) = s := by
  obtain ⟨clientId, keys, handshake, nonces⟩ := s
  obtain ⟨version, rfl⟩ := requirePeer_eq_ok h
  rfl

theorem sealRequest_registers (action : Action) (fields : Json.Members) (triggerUnlock : Bool) :
    s.registers.sealRequest action fields triggerUnlock =
      ((s.sealRequest action fields triggerUnlock).1,
        (s.sealRequest action fields triggerUnlock).2.registers) := by
  rw [Registers.sealRequest, requirePeer_registers]
  rcases hp : s.requirePeer with e | peer
  · simp only [sealRequest, hp]
  · simp only [toSession_of_requirePeer s hp]
    -- What is sealed or fails takes nonces at most.
    rcases hs : s.sealRequest action fields triggerUnlock with ⟨_ | request, t⟩
    · obtain ⟨-, nonces, rfl⟩ := sealRequest_eq_error hs
      rfl
    · obtain ⟨-, ⟨nonces, rfl⟩, -⟩ := sealRequest_eq_ok hs
      rfl

theorem openReply_registers (reply : BoxedReply) (expected : Nonce) :
    s.registers.openReply reply expected = s.openReply reply expected := by
  rw [Registers.openReply, requirePeer_registers]
  rcases hp : s.requirePeer with e | peer
  · simp only [openReply, hp]
    rfl
  · simp only [toSession_of_requirePeer s hp]

/-- Both machines answer a call alike and go to the same state. -/
theorem perform_registers (call : Call) :
    s.registers.perform call = ((call.perform s).1, (call.perform s).2.registers) := by
  cases call with
  | begin =>
    simp only [Registers.perform, Call.perform, begin_registers]
    rcases s.begin with ⟨_ | message, t⟩ <;> rfl
  | complete reply =>
    simp only [Registers.perform, Call.perform, complete_registers]
    rcases s.complete reply with ⟨_ | _, t⟩ <;> rfl
  | reject => simp only [Registers.perform, Call.perform, reject_registers]
  | sealRequest action fields triggerUnlock =>
    simp only [Registers.perform, Call.perform, sealRequest_registers]
    rcases s.sealRequest action fields triggerUnlock with ⟨_ | request, t⟩ <;> rfl
  | openReply reply expected =>
    simp only [Registers.perform, Call.perform, openReply_registers]
    rcases s.openReply reply expected with _ | members <;> rfl

theorem answers_registers (calls : List Call) :
    s.registers.answers calls = answers calls s := by
  induction calls generalizing s with
  | nil => rfl
  | cons call calls ih => simp only [Registers.answers, answers, perform_registers, ih]

theorem after_registers (calls : List Call) :
    s.registers.after calls = (s.after calls).registers := by
  induction calls generalizing s with
  | nil => rfl
  | cons call calls ih =>
    simp only [Registers.after, after, List.foldl_cons, perform_registers] at ih ⊢
    exact ih _

end VaultLink.Session
