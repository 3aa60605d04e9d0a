import VaultLink.Crypto.Box
import VaultLink.Json.Parser
import VaultLink.Proxy.Inbound
import VaultLink.Proxy.Outbound

/-!
# Sessions

A session is one connection's side of the encryption: its key pair, what the key exchange gave, and
the nonces. Every request takes two nonces, one for itself and the next one for its reply, so no two
boxes under the session's key ever share one. A session touches no stream; it makes messages and
takes them.

* `Session.begin`, `Session.complete`, `Session.reject`: the key exchange;
* `Session.sealRequest`, `Session.openReply`: requests and replies in boxes.
-/

namespace VaultLink

/-- How far the key exchange got, with what each phase knows. -/
inductive Handshake where
  | idle
  /-- The public key was sent; the reply must carry this nonce. -/
  | keysSent (replyNonce : Nonce)
  /-- The proxy's key and version are known. -/
  | established (peer : PublicKey) (version : Option String)
  | rejected
  deriving DecidableEq

/-- The phase of a key exchange. -/
def Handshake.phase : Handshake → Phase
  | idle => .idle
  | keysSent _ => .keysSent
  | established .. => .established
  | rejected => .rejected

/-- One connection's side of the encryption. -/
structure Session where
  /-- The name under which the proxy knows the connection. -/
  clientId : String
  keys : KeyPair
  handshake : Handshake
  nonces : Sequencer
  deriving DecidableEq

/-- A request in a box, and the nonce that its reply must carry. -/
structure SealedRequest where
  envelope : Outbound
  replyNonce : Nonce
  deriving DecidableEq

namespace Session

/-- A session with a given name. -/
def withClientId (clientId : String) (entropy : Entropy) : Session × Entropy :=
  let (keys, entropy) := KeyPair.generate entropy
  let (nonces, entropy) := Sequencer.random entropy
  (⟨clientId, keys, .idle, nonces⟩, entropy)

/-- A session with a random name. -/
def new (entropy : Entropy) : Session × Entropy :=
  let (id, entropy) := entropy.draw 24
  withClientId (Base64.encode id.bytes) entropy

/-- The phase of the key exchange. -/
def phase (s : Session) : Phase := s.handshake.phase

/-- The proxy's key, once it is known. -/
def peer? (s : Session) : Option PublicKey :=
  match s.handshake with
  | .established peer _ => some peer
  | _ => none

/-- The proxy's version, once it is known. -/
def version? (s : Session) : Option String :=
  match s.handshake with
  | .established _ version => version
  | _ => none

/-- The nonce that the reply to the key exchange must carry, while it is awaited. -/
def pendingReply? (s : Session) : Option Nonce :=
  match s.handshake with
  | .keysSent nonce => some nonce
  | _ => none

/-- The proxy's key, or why there is none. -/
def requirePeer (s : Session) : Except Error PublicKey :=
  match s.handshake with
  | .established peer _ => .ok peer
  | .rejected => .error (.handshakeFailed .alreadyRejected)
  | .idle | .keysSent _ => .error .notEstablished

/-- Takes the nonce of a request and the one of its reply. -/
def reserve (s : Session) : Except Error (Nonce × Nonce) × Session :=
  match s.nonces.draw with
  | (.error fault, nonces) => (.error (.ofCrypto fault), { s with nonces })
  | (.ok request, nonces) =>
    match nonces.draw with
    | (.error fault, nonces) => (.error (.ofCrypto fault), { s with nonces })
    | (.ok reply, nonces) => (.ok (request, reply), { s with nonces })

/-- Starts the key exchange. -/
def begin (s : Session) : Except Error Outbound × Session :=
  match s.handshake with
  | .idle =>
    match s.reserve with
    | (.error e, s) => (.error e, s)
    | (.ok (request, reply), s) =>
      (.ok (.keyExchange s.keys.publicKey request s.clientId),
        { s with handshake := .keysSent reply })
  | other => (.error (.protocol (.keyExchangeStarted other.phase)), s)

/-- The proxy's key and version in its reply to the key exchange. -/
def acceptKeyExchange (s : Session) (expected : Nonce) (reply : Inbound) :
    Except HandshakeFault (PublicKey × Option String) := do
  let reply ← match reply with
    | .keyExchange reply => pure reply
    | .failure f => throw (.proxyError f.code f.message)
    | other => throw (.unexpectedReply other.action)
  if !reply.success then throw .refused
  if reply.nonce ≠ expected then throw .strayNonce
  let bytes ← match reply.publicKey with
    | some bytes => pure bytes
    | none => throw .noPublicKey
  match PublicKey.ofBytes bytes with
  | .error fault => throw (.badPublicKey fault)
  | .ok peer =>
    if peer = s.keys.publicKey then throw .echoedKey
    return (peer, reply.version)

/-- Takes the reply to the key exchange. A reply that is not accepted rejects the session. -/
def complete (reply : Inbound) (s : Session) : Except Error Unit × Session :=
  match s.handshake with
  | .keysSent expected =>
    match s.acceptKeyExchange expected reply with
    | .ok (peer, version) => (.ok (), { s with handshake := .established peer version })
    | .error cause => (.error (.handshakeFailed cause), { s with handshake := .rejected })
  | other => (.error (.protocol (.noKeyExchange other.phase)), s)

/-- Gives the key exchange up; an established session stays so. -/
def reject (s : Session) : Session :=
  match s.handshake with
  | .established .. => s
  | _ => { s with handshake := .rejected }

/-- The payload of a request: its fields, and the three members by which the proxy knows it. -/
def payload (s : Session) (action : Action) (nonce : Nonce) (fields : Json.Members) :
    Json.Members :=
  ((fields.insert "action" (.string action.wireName)).insert
    "nonce" (.string nonce.toBase64)).insert "clientID" (.string s.clientId)

/-- Puts a request into a box. -/
def sealRequest (action : Action) (fields : Json.Members) (triggerUnlock : Bool) (s : Session) :
    Except Error SealedRequest × Session :=
  match s.requirePeer with
  | .error e => (.error e, s)
  | .ok peer =>
    match s.reserve with
    | (.error e, s) => (.error e, s)
    | (.ok (nonce, replyNonce), s) =>
      let plaintext := Json.render (.object (s.payload action nonce fields))
      let box := Box.encrypt s.keys peer nonce plaintext
      (.ok ⟨.encrypted action box nonce s.clientId triggerUnlock, replyNonce⟩, s)

/-- Opens the box of a reply that must carry a nonce. -/
def openReply (reply : BoxedReply) (expected : Nonce) (s : Session) : Except Error Json.Members := do
  let peer ← s.requirePeer
  if reply.nonce ≠ expected then throw (.protocol (.strayNonce reply.action))
  let plaintext ← match Box.decrypt s.keys peer reply.nonce reply.box with
    | .ok bytes => pure bytes
    | .error fault => throw (.ofCrypto fault)
  match Json.parse plaintext with
  | .error fault => throw (.ofFault fault)
  | .ok (.object members) => return members
  | .ok _ => throw (.malformedMessage .notAnObject)

/-- An absent value or the given text, as a person is told of it. -/
def describeOption : Option String → String
  | none => "None"
  | some text => "Some(" ++ text ++ ")"

/-- The session as a person is told of it, without its secrets. -/
def describe (s : Session) : String :=
  "Session \x7b client_id: " ++ Quoted.quote s.clientId
    ++ ", state: " ++ s.phase.label
    ++ ", public: " ++ s.keys.publicKey.describe
    ++ ", peer: " ++ describeOption (s.peer?.map PublicKey.describe)
    ++ ", proxy_version: " ++ describeOption (s.version?.map Quoted.quote)
    ++ " \x7d"

end Session

end VaultLink
