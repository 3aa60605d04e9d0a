import VaultLink.Crypto.Key
import VaultLink.Crypto.Nonce
import VaultLink.Error
import VaultLink.Json.Parser
import VaultLink.Json.Printer

/-!
# Messages to the proxy

A client sends its public key once, and after that only boxes. Every message is one JSON object.

* `Outbound.encode`: the bytes of a message;
* `Outbound.ofBytes?`: the message of some bytes, as the proxy reads it.
-/

namespace VaultLink

/-- A message to the proxy. -/
inductive Outbound where
  /-- The session's public key. -/
  | keyExchange (publicKey : PublicKey) (nonce : Nonce) (clientId : String)
  /-- A request in a box; `triggerUnlock` asks the proxy to have the database unlocked first. -/
  | encrypted (action : Action) (box : Bytes) (nonce : Nonce) (clientId : String)
      (triggerUnlock : Bool)
  deriving DecidableEq

namespace Outbound

/-- What the message is about. -/
def action : Outbound → Action
  | keyExchange .. => .changePublicKeys
  | encrypted action .. => action

/-- The nonce of the message. -/
def nonce : Outbound → Nonce
  | keyExchange _ nonce _ => nonce
  | encrypted _ _ nonce _ _ => nonce

/-- Whether a request about the action goes out in a box. -/
def sendable (action : Action) : Bool := action ≠ .changePublicKeys && !action.isSignal

/-- The members of a message, in the order in which they are written. -/
def members : Outbound → Json.Members
  | keyExchange publicKey nonce clientId =>
    [("action", .string Action.changePublicKeys.wireName),
      ("publicKey", .string publicKey.toBase64),
      ("nonce", .string nonce.toBase64),
      ("clientID", .string clientId)]
  | encrypted action box nonce clientId triggerUnlock =>
    [("action", .string action.wireName),
      ("message", .string (Base64.encode box)),
      ("nonce", .string nonce.toBase64),
      ("clientID", .string clientId)]
      ++ if triggerUnlock then [("triggerUnlock", .string "true")] else []

/-- The bytes of a message. The key exchange and the signals cannot be sent as a box. -/
def encode (message : Outbound) : Except Error Bytes :=
  match message with
  | keyExchange .. => .ok (Json.render (.object message.members))
  | encrypted action .. =>
    if sendable action then .ok (Json.render (.object message.members))
    else .error (.protocol (.unsendable action))

/-- The text of a member. -/
def text? (members : Json.Members) (name : String) : Option String :=
  members.get? name >>= Json.asString?

/-- The message of some bytes, as the proxy reads it. -/
def ofBytes? (bytes : Bytes) : Option Outbound := do
  let members ← (Json.parse bytes).toOption >>= Json.asObject?
  let action ← text? members "action" >>= Action.ofName?
  let nonce ← text? members "nonce" >>= fun text => (Nonce.ofBase64 text).toOption
  let clientId ← text? members "clientID"
  if action = .changePublicKeys then
    let publicKey ← text? members "publicKey" >>= fun text => (PublicKey.ofBase64 text).toOption
    return .keyExchange publicKey nonce clientId
  else
    let box ← text? members "message" >>= fun text => (Base64.decode text).toOption
    return .encrypted action box nonce clientId
      (((members.get? "triggerUnlock").map Json.truthy).getD false)

end Outbound

end VaultLink
