import VaultLink.Session

/-!
# Runs of a session

A session is driven by calls, in any order and with any arguments (`Session.Call`). Each call gives
an answer (`Session.Answer`) and the session after it (`Call.perform`); `Session.answers` lists the
answers to a row of calls, the failed ones included.
-/

namespace VaultLink.Session

/-- A new session, under the given name or under a random one. -/
def start (clientId : Option String) (entropy : Entropy) : Session :=
  match clientId with
  | some name => (withClientId name entropy).1
  | none => (new entropy).1

/-- A call of a session. -/
inductive Call where
  | begin
  | complete (reply : Inbound)
  | reject
  | sealRequest (action : Action) (fields : Json.Members) (triggerUnlock : Bool)
  | openReply (reply : BoxedReply) (expected : Nonce)

/-- The answer to a call. -/
inductive Answer where
  /-- A message to send, and the nonce reserved for its reply. -/
  | envelope (message : Outbound) (reserved : Option Nonce)
  | done
  | opened (members : Json.Members)
  | failed (error : Error)

/-- The nonces that an answer takes into use: the message's own and then the reserved one. -/
def Answer.nonces : Answer → List Nonce
  | envelope message reserved => message.nonce :: reserved.toList
  | _ => []

/-- Whether an answer is a message to send. -/
def Answer.IsEnvelope : Answer → Prop
  | envelope .. => True
  | _ => False

/-- The answer to a call, and the session after it. What the key exchange reserved is what the
session now waits for. -/
def Call.perform : Call → Session → Answer × Session
  | begin, s =>
    match s.begin with
    | (.ok message, t) => (.envelope message t.pendingReply?, t)
    | (.error e, t) => (.failed e, t)
  | complete reply, s =>
    match s.complete reply with
    | (.ok (), t) => (.done, t)
    | (.error e, t) => (.failed e, t)
  | reject, s => (.done, s.reject)
  | sealRequest action fields triggerUnlock, s =>
    match s.sealRequest action fields triggerUnlock with
    | (.ok request, t) => (.envelope request.envelope (some request.replyNonce), t)
    | (.error e, t) => (.failed e, t)
  | openReply reply expected, s =>
    match s.openReply reply expected with
    | .ok members => (.opened members, s)
    | .error e => (.failed e, s)

/-- The answers to a row of calls. -/
def answers : List Call → Session → List Answer
  | [], _ => []
  | call :: calls, s => (call.perform s).1 :: answers calls (call.perform s).2

end VaultLink.Session
